import ScalableCongestion.CommandLine.Outcome
import ScalableCongestion.Proofs.EstimateRange
import ScalableCongestion.Proofs.OptionGrammar
import ScalableCongestion.Proofs.ReportText
import ScalableCongestion.Proofs.Session.Start
import ScalableCongestion.Proofs.Session.Step
import ScalableCongestion.Proofs.Text.Hex

/-! What a replay prints. Each step up to the first option list that is no
hexadecimal text has one line, which reads as a report: the state after all steps
so far and the packets that this step has queued. Draining the queue between steps
is visible nowhere else. -/
namespace ScalableCongestion

namespace ScenarioStep

def isLegible : ScenarioStep → Bool
  | options hex => Text.isHex (Text.trim hex.toList)
  | _ => true

/-- The step of a session that a scenario asks for. There is none for an option
list that is not legible and for a time that no duration holds. -/
def sessionStep? : ScenarioStep → Option Step
  | ace n => some (.aceOption ⟨n⟩)
  | options hex => (Text.Hex.decode (Text.trim hex.toList)).toOption.map .segmentOptions
  | acknowledge segments millis bytes =>
    (Duration.ofMillis? millis).map fun rtt => .acknowledge segments rtt bytes
  | setPhase phase bytesInFlight => some (.setPhase phase bytesInFlight)
  | signal event => some (.signal event)
  | setRcvNxt seq => some (.setRcvNxt ⟨seq⟩)

end ScenarioStep

/-- The steps before the first option list that is not legible. -/
def legible (steps : List ScenarioStep) : List ScenarioStep :=
  steps.takeWhile ScenarioStep.isLegible

theorem legible_cons {step : ScenarioStep} (hlegible : step.isLegible = true)
    (steps : List ScenarioStep) :
    legible (step :: steps) = step :: legible steps := by
  rw [legible, List.takeWhile_cons_of_pos hlegible, ← legible]

theorem legible_stop {step : ScenarioStep} (hillegible : step.isLegible = false)
    (steps : List ScenarioStep) :
    legible (step :: steps) = [] := by
  rw [legible, List.takeWhile_cons_of_neg (by rw [hillegible]; exact Bool.false_ne_true)]

theorem length_legible (steps : List ScenarioStep) :
    (legible steps).length = steps.findIdx (!·.isLegible) := by
  rw [legible, List.takeWhile_eq_take_findIdx_not, List.length_take]
  exact Nat.min_eq_left List.findIdx_le_length

theorem legible_eq_iff (steps : List ScenarioStep) :
    legible steps = steps ↔ (legible steps).length = steps.length :=
  ⟨congrArg List.length, (List.takeWhile_prefix _).eq_of_length⟩

namespace Session

def advance? (s : Session) (step : ScenarioStep) : Option Session :=
  step.sessionStep?.bind fun move => (s.step? move).map (·.2)

/-- The session that steps lead to. Its queue holds all packets of these steps,
since none of them polls. -/
def after? (s : Session) (steps : List ScenarioStep) : Option Session := steps.foldlM advance? s

/-- No time on the way is more than a duration holds, which is all that can stop
legible steps. -/
def TimesFit (start : Session) (steps : List ScenarioStep) : Prop :=
  ∃ last, start.after? (legible steps) = some last

/-- What is reported of a session. Only Prague has an estimate and suspects queues. -/
structure Shows (s : Session) (summary : Summary) : Prop where
  cwnd : summary.cwnd = s.connection.cwnd
  ssthresh : summary.ssthresh = s.connection.ssthresh
  phase : summary.phase = s.connection.phase
  reno : ∀ r, s.controller = .reno r →
    summary.algorithm = .reno ∧ summary.alpha = none ∧ summary.inFallback = false
  prague : ∀ p, s.controller = .prague p →
    summary.algorithm = .prague ∧ summary.alpha = some p.estimator.alpha ∧
      summary.inFallback = p.queue.suspected

theorem shows_summary (s : Session) : s.Shows s.summary where
  cwnd := rfl
  ssthresh := rfl
  phase := rfl
  reno r hr := by
    rw [summary, hr]
    exact ⟨rfl, rfl, rfl⟩
  prague p hp := by
    rw [summary, hp]
    exact ⟨rfl, rfl, rfl⟩

/-- What a report says of the step at an index: the state that the steps up to
it lead to, and the packets that it adds to the queue. -/
structure Reported (start : Session) (steps : List ScenarioStep) (i : Nat) (r : Report) :
    Prop where
  led : ∃ before reached, start.after? (steps.take i) = some before ∧
    start.after? (steps.take (i + 1)) = some reached ∧ reached.Shows r.summary ∧
    reached.outbox = before.outbox ++ r.packets
  few : r.packets.length ≤ 1

def queueing (earlier : List ControlPacket) (s : Session) : Session :=
  { s with outbox := earlier ++ s.outbox }

variable {s next : Session} {step : ScenarioStep}

theorem outbox_of_create {settings : Settings} (hcreate : create settings = .ok s) :
    s.outbox = [] := by
  obtain ⟨_, _, _, _, hfresh⟩ := create_fresh (validate_of_create hcreate)
  cases Except.ok.inj (hcreate.symm.trans hfresh)
  rfl

theorem acknowledge?_queueing (earlier : List ControlPacket) (s : Session)
    (segments bytes : UInt32) (rtt : Duration) :
    (s.queueing earlier).acknowledge? segments rtt bytes =
      (s.acknowledge? segments rtt bytes).map (queueing earlier) := by
  rw [acknowledge?_eq, acknowledge?_eq]
  change (s.timing? rtt).bind _ = _
  cases s.timing? rtt with
  | none => rfl
  | some timed =>
      obtain ⟨srtt, averages⟩ := timed
      simp only [Option.bind_some, Option.map_map]
      rfl

theorem signal_queueing (earlier : List ControlPacket) (s : Session) (event : Signal) :
    (s.queueing earlier).signal event = (s.signal event).queueing earlier := by
  simp only [signal, queueing, List.append_assoc]

theorem advance?_queueing (earlier : List ControlPacket) (s : Session) (step : ScenarioStep) :
    (s.queueing earlier).advance? step = (s.advance? step).map (queueing earlier) := by
  unfold advance?
  cases step with
  | ace n => rfl
  | options hex =>
      simp only [ScenarioStep.sessionStep?]
      cases Text.Hex.decode (Text.trim hex.toList) with
      | error fault => rfl
      | ok bytes =>
          simp only [Except.toOption, Option.map_some, Option.bind_some, step?, receiveOptions]
          cases findAce? bytes <;> rfl
  | acknowledge segments millis bytes =>
      simp only [ScenarioStep.sessionStep?]
      cases Duration.ofMillis? millis with
      | none => rfl
      | some rtt =>
          simp only [Option.map_some, Option.bind_some, step?, acknowledge?_queueing,
            Option.map_map]
          rfl
  | setPhase phase bytesInFlight =>
      simp only [ScenarioStep.sessionStep?, Option.bind_some, step?, Option.map_some, setPhase_eq]
      rfl
  | signal event =>
      simp only [ScenarioStep.sessionStep?, Option.bind_some, step?, Option.map_some,
        signal_queueing]
  | setRcvNxt seq => rfl

theorem after?_cons (s : Session) (step : ScenarioStep) (steps : List ScenarioStep) :
    s.after? (step :: steps) = (s.advance? step).bind (·.after? steps) := rfl

theorem after?_queueing (earlier : List ControlPacket) (s : Session) (steps : List ScenarioStep) :
    (s.queueing earlier).after? steps = (s.after? steps).map (queueing earlier) := by
  induction steps generalizing s with
  | nil => rfl
  | cons step steps ih =>
      rw [after?_cons, after?_cons, advance?_queueing]
      cases s.advance? step with
      | none => rfl
      | some next => exact ih next

inductive Applied (s : Session) (step : ScenarioStep) : Except ReplayFault Session → Prop where
  | moved (next : Session) (legible : step.isLegible = true)
    (advance : s.advance? step = some next) : Applied s step (.ok next)
  | illegible (cause : Text.HexFault) (illegible : step.isLegible = false) :
    Applied s step (.error (.badOptions cause))
  | overflow (legible : step.isLegible = true) (stuck : s.advance? step = none) :
    Applied s step (.error .overflow)

theorem applied (s : Session) (step : ScenarioStep) : Applied s step (step.apply s) := by
  cases step with
  | options hex =>
      have hlegible := Text.Hex.exists_decode_iff (Text.trim hex.toList)
      cases hdecode : Text.Hex.decode (Text.trim hex.toList) with
      | ok bytes =>
          have happly : (ScenarioStep.options hex).apply s = .ok (s.receiveOptions bytes) := by
            simp only [ScenarioStep.apply, hdecode]
          rw [happly]
          refine .moved _ (hlegible.mp ⟨bytes, hdecode⟩) ?_
          simp only [advance?, ScenarioStep.sessionStep?, hdecode]
          rfl
      | error cause =>
          have happly : (ScenarioStep.options hex).apply s = .error (.badOptions cause) := by
            simp only [ScenarioStep.apply, hdecode]
          rw [happly]
          refine .illegible cause ?_
          rw [← Bool.not_eq_true, ScenarioStep.isLegible, ← hlegible, hdecode]
          rintro ⟨_, h⟩
          cases h
  | acknowledge segments millis bytes =>
      have hadvance : s.advance? (.acknowledge segments millis bytes) =
          (Duration.ofMillis? millis).bind fun rtt => s.acknowledge? segments rtt bytes := by
        simp only [advance?, ScenarioStep.sessionStep?]
        cases Duration.ofMillis? millis with
        | none => rfl
        | some rtt =>
            simp only [Option.map_some, Option.bind_some, step?, Option.map_map]
            exact congrFun Option.map_id _
      simp only [ScenarioStep.apply]
      rw [← hadvance]
      cases hnext : s.advance? (.acknowledge segments millis bytes) with
      | none => exact .overflow rfl hnext
      | some next => exact .moved next rfl hnext
  | _ => exact .moved _ rfl rfl

theorem outbox_of_advance? (hadvance : s.advance? step = some next) :
    ∃ packets, next.outbox = s.outbox ++ packets ∧ packets.length ≤ 1 := by
  obtain ⟨move, hmove, hnext⟩ := Option.bind_eq_some_iff.mp hadvance
  obtain ⟨⟨packet, reached⟩, hreached, rfl⟩ := Option.map_eq_some_iff.mp hnext
  have same : ∃ packets, s.outbox = s.outbox ++ packets ∧ packets.length ≤ 1 :=
    ⟨[], (List.append_nil _).symm, Nat.zero_le _⟩
  cases effect_of_step? hreached with
  | signal event =>
      refine ⟨_, rfl, ?_⟩
      cases (s.controller.signal s.connection event).1 <;> simp
  | pollNothing _ => exact same
  | poll _ _ _ =>
      -- no step of a scenario polls
      cases step with
      | options hex => obtain ⟨_, _, h⟩ := Option.map_eq_some_iff.mp hmove; cases h
      | acknowledge _ millis _ => obtain ⟨_, _, h⟩ := Option.map_eq_some_iff.mp hmove; cases h
      | _ => cases hmove
  | _ => exact same

theorem drain_queueing (s : Session) : s.drain.2.queueing s.outbox = s := by
  simp only [drain, queueing, List.append_nil]

/-- The steps after one that moved on start from an emptied queue and lead to the
same session, but for the packets taken out. -/
theorem after?_drained (hadvance : s.advance? step = some next) (steps : List ScenarioStep) :
    s.after? (step :: steps) = (next.drain.2.after? steps).map (queueing next.outbox) := by
  rw [after?_cons, hadvance, Option.bind_some, ← after?_queueing, drain_queueing]

theorem replayFrom_moved {index : Nat} {steps : List ScenarioStep}
    (happly : step.apply s = .ok next) :
    s.replayFrom index (step :: steps) =
      (⟨index, next.summary, next.outbox⟩ ::
          (next.drain.2.replayFrom (index + 1) steps).1,
        (next.drain.2.replayFrom (index + 1) steps).2) := by
  rw [replayFrom, happly]
  rfl

theorem replayFrom_stopped {index : Nat} {steps : List ScenarioStep} {fault : ReplayFault}
    (happly : step.apply s = .error fault) :
    s.replayFrom index (step :: steps) = ([], some fault) := by
  rw [replayFrom, happly]

theorem replayFrom_append (index : Nat) (s : Session) (steps more : List ScenarioStep) :
    (s.replayFrom index steps).1 <+: (s.replayFrom index (steps ++ more)).1 := by
  induction steps generalizing index s with
  | nil => exact List.nil_prefix
  | cons step steps ih =>
      rw [List.cons_append]
      cases happly : step.apply s with
      | error fault =>
          rw [replayFrom_stopped happly]
          exact List.nil_prefix
      | ok next =>
          rw [replayFrom_moved happly, replayFrom_moved happly]
          exact (List.prefix_cons_inj _).mpr (ih (index + 1) next.drain.2)

theorem replayFrom_exchange {step other : ScenarioStep}
    (halike : ∀ s, step.apply s = other.apply s) (index : Nat) (s : Session)
    (front back : List ScenarioStep) :
    s.replayFrom index (front ++ step :: back) = s.replayFrom index (front ++ other :: back) := by
  induction front generalizing index s with
  | nil =>
      rw [List.nil_append, List.nil_append, replayFrom, replayFrom, halike]
  | cons first front ih =>
      rw [List.cons_append, List.cons_append, replayFrom, replayFrom]
      cases first.apply s with
      | error fault => rfl
      | ok next => simp only [ih]

/-- An index has the report of its step. -/
def Numbered (start : Session) (steps : List ScenarioStep) (index : Nat)
    (reports : List Report) : Prop :=
  ∀ i r, reports[i]? = some r → r.step = index + i ∧ Reported start steps i r

theorem Reported.cons {steps : List ScenarioStep} {i : Nat} {r : Report}
    (hadvance : s.advance? step = some next) (h : Reported next.drain.2 steps i r) :
    Reported s (step :: steps) (i + 1) r := by
  obtain ⟨before, reached, hbefore, hreached, hshows, hpackets⟩ := h.led
  have hshows : (reached.queueing next.outbox).Shows r.summary := ⟨hshows.cwnd, hshows.ssthresh,
    hshows.phase, hshows.reno, hshows.prague⟩
  refine ⟨⟨before.queueing next.outbox, reached.queueing next.outbox, ?_, ?_, hshows, ?_⟩, h.few⟩
  · rw [List.take_succ_cons, after?_drained hadvance, hbefore, Option.map_some]
  · rw [List.take_succ_cons, after?_drained hadvance, hreached, Option.map_some]
  · simp only [queueing, hpackets, List.append_assoc]

theorem Reported.first (hqueue : s.outbox = []) (hadvance : s.advance? step = some next)
    (steps : List ScenarioStep) (index : Nat) :
    Reported s (step :: steps) 0 ⟨index, next.summary, next.outbox⟩ := by
  obtain ⟨packets, hpackets, hfew⟩ := outbox_of_advance? hadvance
  rw [hqueue, List.nil_append] at hpackets
  refine ⟨⟨s, next, rfl, ?_, next.shows_summary, ?_⟩, ?_⟩
  · rw [List.take_succ_cons, after?_cons, hadvance]
    rfl
  · rw [hqueue, List.nil_append]
  · rw [hpackets]
    exact hfew

theorem numbered_cons {steps : List ScenarioStep} {index : Nat} {reports : List Report}
    (hqueue : s.outbox = []) (hadvance : s.advance? step = some next)
    (h : Numbered next.drain.2 steps (index + 1) reports) :
    Numbered s (step :: steps) index (⟨index, next.summary, next.outbox⟩ :: reports) := by
  intro i r hr
  cases i with
  | zero =>
      cases Option.some.inj hr
      exact ⟨rfl, .first hqueue hadvance steps index⟩
  | succ i =>
      obtain ⟨hstep, hreported⟩ := h i r hr
      exact ⟨by omega, hreported.cons hadvance⟩

theorem EstimatesFractions.after? {steps : List ScenarioStep} (h : s.EstimatesFractions)
    (hafter : s.after? steps = some next) : next.EstimatesFractions := by
  induction steps generalizing s with
  | nil =>
      cases Option.some.inj hafter
      exact h
  | cons step steps ih =>
      rw [after?_cons] at hafter
      obtain ⟨moved, hadvance, hrest⟩ := Option.bind_eq_some_iff.mp hafter
      obtain ⟨move, _, hmoved⟩ := Option.bind_eq_some_iff.mp hadvance
      obtain ⟨_, hstep, rfl⟩ := Option.map_eq_some_iff.mp hmoved
      exact ih (h.of_step hstep) hrest

theorem Shows.isFinite {summary : Summary} (h : s.Shows summary)
    (hfractions : s.EstimatesFractions) :
    ∀ alpha ∈ summary.alpha, alpha.isFinite = true := by
  intro alpha halpha
  cases hcontroller : s.controller with
  | reno r =>
      rw [(h.reno r hcontroller).2.1] at halpha
      cases halpha
  | prague p =>
      rw [(h.prague p hcontroller).2.1] at halpha
      cases Option.some.inj halpha
      obtain ⟨q, hq, _⟩ := inUnit_iff.mp (hfractions p hcontroller).alpha_inUnit
      exact isFinite_iff.mpr ⟨q, hq⟩

theorem Numbered.mapM_ofLine? {steps : List ScenarioStep} {index : Nat} {reports : List Report}
    (h : Numbered s steps index reports) (hfractions : s.EstimatesFractions) :
    (reports.map Report.line).mapM Report.ofLine? = some reports := by
  apply Report.mapM_map_of_inverse
  intro r hr
  obtain ⟨i, hi⟩ := List.mem_iff_getElem?.mp hr
  obtain ⟨_, reached, _, hreached, hshows, _⟩ := (h i r hi).2.led
  exact Report.ofLine?_line (hshows.isFinite (hfractions.after? hreached))

theorem replayFrom_reports {steps : List ScenarioStep} {last : Session} (index : Nat)
    (hqueue : s.outbox = []) (hlast : s.after? (legible steps) = some last) :
    (s.replayFrom index steps).1.length = (legible steps).length ∧
      Numbered s steps index (s.replayFrom index steps).1 ∧
      (s.replayFrom index steps).1.flatMap (·.packets) = last.outbox ∧
      ((s.replayFrom index steps).2 = none ↔ legible steps = steps) := by
  induction steps generalizing index s last with
  | nil =>
      cases Option.some.inj hlast
      exact ⟨rfl, nofun, hqueue.symm, iff_of_true rfl rfl⟩
  | cons step steps ih =>
      generalize happly : step.apply s = result
      have happlied := applied s step
      rw [happly] at happlied
      cases happlied with
      | illegible cause hillegible =>
          rw [legible_stop hillegible] at hlast ⊢
          cases Option.some.inj hlast
          rw [replayFrom_stopped happly]
          exact ⟨rfl, nofun, hqueue.symm, iff_of_false nofun nofun⟩
      | overflow hlegible hstuck =>
          rw [legible_cons hlegible, after?_cons, hstuck] at hlast
          cases hlast
      | moved next hlegible hadvance =>
          rw [legible_cons hlegible, after?_drained hadvance] at hlast
          obtain ⟨rest, hrest, rfl⟩ := Option.map_eq_some_iff.mp hlast
          obtain ⟨hlength, hnumbered, hpackets, hfault⟩ :=
            ih (s := next.drain.2) (index + 1) rfl hrest
          rw [legible_cons hlegible, replayFrom_moved happly]
          refine ⟨?_, numbered_cons hqueue hadvance hnumbered, ?_, ?_⟩
          · rw [List.length_cons, hlength, List.length_cons]
          · rw [List.flatMap_cons, hpackets]
            rfl
          · rw [hfault, List.cons.injEq]
            exact (and_iff_right rfl).symm

end Session

namespace Invocation

theorem replayScenario_eq {scenario : Scenario} {base : Settings} {start : Session}
    (hstart : Session.create (scenario.settings.getD base) = .ok start) :
    replayScenario scenario base =
      ⟨(start.replayFrom 0 scenario.steps).1.map Report.line,
        (start.replayFrom 0 scenario.steps).2.map ReplayFault.commandFault⟩ := by
  rw [replayScenario, hstart]
  rfl

theorem exitCode_eq_zero_iff (lines : List String) (fault : Option ReplayFault) :
    (Outcome.mk lines (fault.map ReplayFault.commandFault)).exitCode = 0 ↔ fault = none := by
  cases fault with
  | none => exact iff_of_true rfl rfl
  | some fault => cases fault <;> exact iff_of_false nofun nofun

theorem apply_encodedLine (s : Session) (n : UInt32) :
    (ScenarioStep.options (encodedLine n)).apply s = (ScenarioStep.ace n).apply s := by
  have hbytes : Text.Hex.decode (Text.trim (encodedLine n).toList) =
      .ok (AceOption.encode ⟨n⟩) := by
    rw [encodedLine, String.toList_ofList, Text.Hex.trim_encode, Text.Hex.decode_encode]
  have hfound : findAce? (AceOption.encode ⟨n⟩) = some ⟨n⟩ :=
    findAce?_of_foundAt ⟨List.forall_mem_nil _, List.forall_mem_nil _, rfl⟩
  simp only [ScenarioStep.apply, hbytes, Session.receiveOptions, hfound]

/-- A replay prints the reports up to the first option list that is not legible,
one line each, and ends well if there is none. Its lines stay when steps are added
behind, and an encoded count can stand for the count itself. -/
theorem replay_prints_reports {scenario : Scenario} {base : Settings} {start : Session}
    (hstart : Session.create (scenario.settings.getD base) = .ok start)
    (hfits : start.TimesFit scenario.steps) :
    (∀ world level settingsPath path text, settings world settingsPath = .ok base →
        world.read path = some text → Scenario.parse? text = some scenario →
        run world ⟨level, settingsPath, .replay path⟩ = replayScenario scenario base) ∧
      (∃ reports last,
        (replayScenario scenario base).lines = reports.map Report.line ∧
        (replayScenario scenario base).lines.mapM Report.ofLine? = some reports ∧
        reports.length = scenario.steps.findIdx (!·.isLegible) ∧
        ((replayScenario scenario base).exitCode = 0 ↔ reports.length = scenario.steps.length) ∧
        Session.Numbered start scenario.steps 0 reports ∧
        start.after? (legible scenario.steps) = some last ∧
        reports.flatMap (·.packets) = last.outbox) ∧
      (∀ more, (replayScenario scenario base).lines <+:
        (replayScenario ⟨scenario.settings, scenario.steps ++ more⟩ base).lines) ∧
      ∀ front n back, scenario.steps = front ++ .ace n :: back →
        replayScenario ⟨scenario.settings, front ++ .options (encodedLine n) :: back⟩ base =
          replayScenario scenario base := by
  obtain ⟨last, hlast⟩ := hfits
  obtain ⟨hlength, hnumbered, hpackets, hfault⟩ :=
    Session.replayFrom_reports 0 (Session.outbox_of_create hstart) hlast
  have houtcome := replayScenario_eq hstart
  have hfractions :=
    Session.estimatesFractions_of_create (Session.validate_of_create hstart) hstart
  refine ⟨?_, ⟨_, last, congrArg Outcome.lines houtcome, ?_, ?_, ?_, hnumbered, hlast, hpackets⟩,
    ?_, ?_⟩
  · intro world level settingsPath path text hsettings hread hparse
    simp only [run, replay, hsettings, hread, hparse]
  · rw [houtcome]
    exact hnumbered.mapM_ofLine? hfractions
  · rw [hlength, length_legible]
  · rw [houtcome, exitCode_eq_zero_iff, hfault, hlength, legible_eq_iff]
  · intro more
    have hlonger : replayScenario ⟨scenario.settings, scenario.steps ++ more⟩ base = _ :=
      replayScenario_eq hstart
    rw [houtcome, hlonger]
    exact (Session.replayFrom_append 0 start scenario.steps more).map Report.line
  · intro front n back hsteps
    have hencoded : replayScenario ⟨scenario.settings, front ++ .options (encodedLine n) :: back⟩
        base = _ := replayScenario_eq hstart
    rw [houtcome, hsteps, hencoded, Session.replayFrom_exchange fun s => apply_encodedLine s n]

/-- Half of the acknowledged bytes are marked, a longer round trip lets suspect a
classic queue, a delayed acknowledgement is pending when the marking of segments
ends, and a text is cut short. -/
def cutShort : String :=
  "\x7b\"steps\": [[\"ace\", 1448], [\"ack\", 2, 12.5, 2896], [\"rcv_nxt\", 1000], " ++
    "[\"event\", \"ecn_is_ce\"], [\"event\", \"delayed_ack\"], [\"ack\", 1, 36.50008, 0], " ++
    "[\"event\", \"ecn_no_ce\"], " ++
    "\x7b\"type\": \"options\", \"hex\": \"0f06000005a\"\x7d, [\"ace\", 0]]\x7d"

def lastLine : String :=
  "\x7b\"step\":6,\"algorithm\":\"TcpPrague\",\"congestion_window\":14767," ++
    "\"ssthresh\":4294967295,\"state\":\"open\",\"alpha\":0.908203125," ++
    "\"in_fallback\":true,\"control_packets\":[\x7b\"ack\":1000,\"flags\":80\x7d]\x7d"

/-- Every path leads to this text. -/
def everywhere (text : String) : Surroundings := ⟨⟨fun _ => some text, []⟩, [], fun _ => []⟩

theorem replay_prints_reports_cutShort :
    ∃ scenario outcome reports, Scenario.parse? cutShort = some scenario ∧
      Session.create (scenario.settings.getD .default) = .ok (.startPrague .default) ∧
      (Session.startPrague .default).TimesFit scenario.steps ∧
      run (everywhere cutShort) ⟨none, none, .replay "cut-short.json"⟩ = outcome ∧
      outcome.exitCode ≠ 0 ∧ outcome.lines.mapM Report.ofLine? = some reports ∧
      reports.length = 7 ∧ outcome.lines.length = 7 ∧ outcome.lines[6]? = some lastLine ∧
      (Duration.ofMillis? 36.50008).map Duration.nanos = some 36500080 := by
  have hvalid : Settings.default.validate = .ok () := by
    rw [Settings.validate_eq_ok_iff]
    decide +kernel
  have hread : ((Scenario.parse? cutShort).any fun scenario => scenario.settings.isNone &&
      (((Session.startPrague .default).after? (legible scenario.steps)).isSome &&
        (scenario.steps.findIdx (!·.isLegible) == 7 && (scenario.steps.length == 9 &&
          (replayScenario scenario .default).lines[6]? == some lastLine)))) = true := by
    decide +kernel
  obtain ⟨scenario, hparse, hread⟩ := (Option.any_eq_true _ _).mp hread
  simp only [Bool.and_eq_true, Option.isNone_iff_eq_none, beq_iff_eq] at hread
  obtain ⟨hsettings, hafter, hstop, hall, hlast⟩ := hread
  have hstart : Session.create (scenario.settings.getD .default) = .ok (.startPrague .default) := by
    rw [hsettings]
    exact Session.create_eq_startPrague hvalid rfl
  have hfits : (Session.startPrague .default).TimesFit scenario.steps :=
    Option.isSome_iff_exists.mp hafter
  obtain ⟨hrun, ⟨reports, _, hlines, hreports, hlength, hcode, _⟩, _⟩ :=
    replay_prints_reports hstart hfits
  refine ⟨scenario, _, reports, hparse, hstart, hfits, hrun _ _ _ _ cutShort rfl rfl hparse, ?_,
    hreports, ?_, ?_, hlast, by decide +kernel⟩
  · rw [ne_eq, hcode, hlength, hstop, hall]
    decide
  · rw [hlength, hstop]
  · rw [hlines, List.length_map, hlength, hstop]

end Invocation

end ScalableCongestion
