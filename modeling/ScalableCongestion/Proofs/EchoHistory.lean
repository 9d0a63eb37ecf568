import ScalableCongestion.Proofs.Control.Prague
import ScalableCongestion.Proofs.Session.Run
import ScalableCongestion.Proofs.Session.Start

/-! Which acknowledgements a Prague session asks for, told from the steps it was
fed. A marked or unmarked segment is an observation, except that marks are not
observed while a classic queue is suspected. An acknowledgement is owed between
two neighbouring observations when the marking changes and a delayed
acknowledgement is pending; it covers the earlier one. Over every run, the
packets that polls handed out and those still queued are exactly the owed ones. -/
namespace ScalableCongestion

/-- What history knows of a segment that was observed. -/
structure Observation where
  marked : Bool
  /-- the next expected sequence number at that time -/
  rcvNxt : SequenceNumber
  /-- whether the latest word on delayed acknowledgements said that one is pending -/
  delayed : Bool
deriving DecidableEq

/-- The acknowledgement owed between two neighbouring observations, with the flags
ACK and ECE for a marked segment and ACK for another. -/
def Observation.owed (earlier later : Observation) : Option ControlPacket :=
  if earlier.marked ≠ later.marked ∧ later.delayed = true then
    some ⟨earlier.rcvNxt, if earlier.marked then 0x50 else 0x10⟩
  else none

def owedPackets : List Observation → List ControlPacket
  | [] => []
  | [_] => []
  | earlier :: later :: rest => (earlier.owed later).toList ++ owedPackets (later :: rest)

theorem owedPackets_concat (earlier : List Observation) (o : Observation) :
    owedPackets (earlier ++ [o]) =
      owedPackets earlier ++ (earlier.getLast?.bind (·.owed o)).toList := by
  induction earlier with
  | nil => rfl
  | cons first rest ih =>
      cases rest with
      | nil => simp [owedPackets]
      | cons second rest =>
          simp only [List.cons_append, owedPackets, List.getLast?_cons_cons] at ih ⊢
          rw [ih, List.append_assoc]

namespace Session

def latestRcvNxt (past : List Step) : SequenceNumber :=
  past.foldl (fun latest step => match step with
    | .setRcvNxt seq => seq
    | _ => latest) ⟨0⟩

def delayedPending (past : List Step) : Bool :=
  past.foldl (fun pending step => match step with
    | .signal .delayedAck => true
    | .signal .immediateAck => false
    | _ => pending) false

def suspectedAfter (start : Session) (past : List Step) : Bool :=
  (start.run? past).any fun (_, reached) => reached.controller.inFallback

/-- What a step observes, given the steps before it. -/
def observed? (start : Session) (past : List Step) : Step → Option Observation
  | .signal .unmarked => some ⟨false, latestRcvNxt past, delayedPending past⟩
  | .signal .marked =>
    if start.suspectedAfter past then none
    else some ⟨true, latestRcvNxt past, delayedPending past⟩
  | _ => none

def observationsAfter (start : Session) (past : List Step) : List Step → List Observation
  | [] => []
  | step :: steps =>
    (start.observed? past step).toList ++ start.observationsAfter (past ++ [step]) steps

def observations (start : Session) (steps : List Step) : List Observation :=
  start.observationsAfter [] steps

theorem latestRcvNxt_concat (past : List Step) (step : Step) :
    latestRcvNxt (past ++ [step]) = match step with
      | .setRcvNxt seq => seq
      | _ => latestRcvNxt past := by
  simp only [latestRcvNxt, List.foldl_append, List.foldl_cons, List.foldl_nil]

theorem delayedPending_concat (past : List Step) (step : Step) :
    delayedPending (past ++ [step]) = match step with
      | .signal .delayedAck => true
      | .signal .immediateAck => false
      | _ => delayedPending past := by
  simp only [delayedPending, List.foldl_append, List.foldl_cons, List.foldl_nil]

theorem observationsAfter_concat (start : Session) (past steps : List Step) (step : Step) :
    start.observationsAfter past (steps ++ [step]) =
      start.observationsAfter past steps ++ (start.observed? (past ++ steps) step).toList := by
  induction steps generalizing past with
  | nil => simp [observationsAfter]
  | cons first steps ih =>
      simp only [List.cons_append, observationsAfter, ih, List.append_assoc, List.nil_append]

theorem observations_concat (start : Session) (steps : List Step) (step : Step) :
    start.observations (steps ++ [step]) =
      start.observations steps ++ (start.observed? steps step).toList :=
  start.observationsAfter_concat [] steps step

theorem observations_of_unobserved {start : Session} {steps : List Step} {step : Step}
    (h : start.observed? steps step = none) :
    start.observations (steps ++ [step]) = start.observations steps := by
  rw [observations_concat, h, Option.toList_none, List.append_nil]

theorem suspectedAfter_of_run {start reached : Session} {past : List Step}
    {packets : List ControlPacket} (h : start.run? past = some (packets, reached)) :
    start.suspectedAfter past = reached.controller.inFallback := by
  rw [suspectedAfter, h, Option.any_some]

/-- What the receiver's half keeps in mind of the last observation. -/
def Remembers (e : Echo) : Option Observation → Prop
  | none => e.snapshot = none
  | some o => e.snapshot = some o.rcvNxt ∧ e.marking = o.marked

/-- A session that agrees with the history of its steps. -/
structure Recalls (start : Session) (past : List Step) (packets : List ControlPacket)
    (s : Session) : Prop where
  echo : ∃ p, s.controller = .prague p ∧ p.echo.reserved = delayedPending past ∧
    Remembers p.echo (start.observations past).getLast?
  rcvNxt : s.connection.rcvNxt = latestRcvNxt past
  packets : packets ++ s.outbox = owedPackets (start.observations past)

theorem owed_of_remembers {e : Echo} {last : Option Observation} (h : Remembers e last)
    {o : Observation} (hdelayed : e.reserved = o.delayed) :
    e.owed o.marked = last.bind (·.owed o) := by
  cases last with
  | none =>
      rw [Echo.owed, h]
      rfl
  | some earlier =>
      obtain ⟨hsnapshot, hmarking⟩ := h
      rw [Echo.owed, hsnapshot]
      simp only [Option.bind_some, Observation.owed, hmarking, hdelayed, ControlPacket.withEcho,
        ControlPacket.plain, Bool.and_eq_true, bne_iff_ne]
      cases earlier.marked <;> rfl

theorem Recalls.quiet {start s next : Session} {past : List Step} {packets : List ControlPacket}
    {step : Step} (h : Recalls start past packets s) (packet : Option ControlPacket)
    (hobserved : start.observed? past step = none)
    (hdelayed : delayedPending (past ++ [step]) = delayedPending past)
    (hlatest : latestRcvNxt (past ++ [step]) = latestRcvNxt past)
    (hecho : ∀ p, s.controller = .prague p →
      ∃ p', next.controller = .prague p' ∧ p'.echo = p.echo)
    (hrcvNxt : next.connection.rcvNxt = s.connection.rcvNxt)
    (houtbox : packet.toList ++ next.outbox = s.outbox) :
    Recalls start (past ++ [step]) (packets ++ packet.toList) next := by
  have hsame := observations_of_unobserved hobserved
  obtain ⟨p, hp, hreserved, hremembers⟩ := h.echo
  obtain ⟨p', hp', hecho⟩ := hecho p hp
  refine ⟨⟨p', hp', ?_, ?_⟩, ?_, ?_⟩
  · rw [hecho, hdelayed, hreserved]
  · rw [hecho, hsame]
    exact hremembers
  · rw [hrcvNxt, hlatest, h.rcvNxt]
  · rw [List.append_assoc, houtbox, hsame, h.packets]

theorem Recalls.observe {start s : Session} {past : List Step} {packets : List ControlPacket}
    {event : Signal} {p : Prague} (h : Recalls start past packets s)
    (hp : s.controller = .prague p) (marked : Bool)
    (hevent : p.signal s.connection event = p.observe s.connection marked)
    (hobserved : start.observed? past (.signal event) =
      some ⟨marked, latestRcvNxt past, delayedPending past⟩)
    (hdelayed : delayedPending (past ++ [.signal event]) = delayedPending past) :
    Recalls start (past ++ [.signal event]) (packets ++ []) (s.signal event) := by
  obtain ⟨p', hp', hreserved, hremembers⟩ := h.echo
  cases hp.symm.trans hp'
  rw [signal_prague hp, hevent]
  have howed := owed_of_remembers hremembers
    (o := ⟨marked, latestRcvNxt past, delayedPending past⟩) hreserved
  refine ⟨⟨_, rfl, ?_, ?_⟩, ?_, ?_⟩
  · rw [hdelayed]
    exact hreserved
  · rw [observations_concat, hobserved, Option.toList_some, List.getLast?_concat]
    exact ⟨congrArg some h.rcvNxt, rfl⟩
  · rw [latestRcvNxt_concat]
    exact h.rcvNxt
  · rw [observations_concat, hobserved, Option.toList_some, owedPackets_concat, ← howed,
      ← h.packets, List.append_nil, List.append_assoc]
    rfl

theorem Recalls.reserve {start s : Session} {past : List Step} {packets : List ControlPacket}
    {event : Signal} {p : Prague} (h : Recalls start past packets s)
    (hp : s.controller = .prague p) (reserved : Bool)
    (hevent : p.signal s.connection event =
      (none, { p with echo := p.echo.reserve reserved }, s.connection))
    (hobserved : start.observed? past (.signal event) = none)
    (hdelayed : delayedPending (past ++ [.signal event]) = reserved) :
    Recalls start (past ++ [.signal event]) (packets ++ []) (s.signal event) := by
  obtain ⟨p', hp', _, hremembers⟩ := h.echo
  cases hp.symm.trans hp'
  have hsame := observations_of_unobserved hobserved
  rw [signal_prague hp, hevent]
  refine ⟨⟨_, rfl, hdelayed.symm, ?_⟩, ?_, ?_⟩
  · rw [hsame]
    exact hremembers
  · rw [latestRcvNxt_concat]
    exact h.rcvNxt
  · rw [hsame, List.append_nil, Option.toList_none, List.append_nil]
    exact h.packets

theorem Recalls.signal {start s : Session} {past : List Step} {packets : List ControlPacket}
    (h : Recalls start past packets s) (hrun : start.run? past = some (packets, s))
    (event : Signal) :
    Recalls start (past ++ [.signal event]) (packets ++ []) (s.signal event) := by
  obtain ⟨p, hp, _⟩ := h.echo
  have quiet (hobserved : start.observed? past (.signal event) = none)
      (hdelayed : delayedPending (past ++ [.signal event]) = delayedPending past)
      (hpacket : (p.signal s.connection event).1 = none)
      (hecho : (p.signal s.connection event).2.1.echo = p.echo)
      (hrcvNxt : (p.signal s.connection event).2.2.rcvNxt = s.connection.rcvNxt) :
      Recalls start (past ++ [.signal event]) (packets ++ []) (s.signal event) := by
    rw [signal_prague hp]
    refine h.quiet none hobserved hdelayed (latestRcvNxt_concat ..) ?_ hrcvNxt ?_
    · intro p' hp'
      cases hp.symm.trans hp'
      exact ⟨_, rfl, hecho⟩
    · rw [hpacket]
      exact List.append_nil _
  cases event with
  | transmitStart => exact quiet rfl (delayedPending_concat ..) rfl rfl rfl
  | windowRestart => exact quiet rfl (delayedPending_concat ..) rfl rfl rfl
  | cwrComplete => exact quiet rfl (delayedPending_concat ..) rfl rfl rfl
  | loss =>
      obtain ⟨window, hlose⟩ := p.lose_eq s.connection
      refine quiet rfl (delayedPending_concat ..) rfl rfl ?_
      simp only [Prague.signal, hlose]
  | unmarked => exact h.observe hp false rfl rfl (delayedPending_concat ..)
  | marked =>
      have hsuspected : start.suspectedAfter past = p.inFallback := by
        rw [suspectedAfter_of_run hrun, hp]
        rfl
      cases hfallback : p.inFallback with
      | true =>
          have hhalve : p.signal s.connection .marked = (none, p, s.connection.halve) := by
            simp only [Prague.signal, hfallback, ↓reduceIte]
          refine quiet ?_ (delayedPending_concat ..) ?_ ?_ ?_
          · simp only [observed?, hsuspected, hfallback, ↓reduceIte]
          · rw [hhalve]
          · rw [hhalve]
          · rw [hhalve]
            rfl
      | false =>
          refine h.observe hp true ?_ ?_ (delayedPending_concat ..)
          · simp only [Prague.signal, hfallback, Bool.false_eq_true, ↓reduceIte]
          · simp only [observed?, hsuspected, hfallback, Bool.false_eq_true, ↓reduceIte]
  | delayedAck => exact h.reserve hp true rfl rfl (delayedPending_concat ..)
  | immediateAck => exact h.reserve hp false rfl rfl (delayedPending_concat ..)

theorem Recalls.setRcvNxt {start s : Session} {past : List Step} {packets : List ControlPacket}
    (h : Recalls start past packets s) (seq : SequenceNumber) :
    Recalls start (past ++ [.setRcvNxt seq]) (packets ++ []) (s.setRcvNxt seq) := by
  have hsame : start.observations (past ++ [.setRcvNxt seq]) = start.observations past :=
    observations_of_unobserved rfl
  obtain ⟨p, hp, hreserved, hremembers⟩ := h.echo
  refine ⟨⟨p, hp, ?_, hsame ▸ hremembers⟩, ?_, ?_⟩
  · rw [delayedPending_concat, hreserved]
  · rw [latestRcvNxt_concat]
    rfl
  · rw [hsame, List.append_nil]
    exact h.packets

theorem Recalls.step {start s next : Session} {past : List Step} {packets : List ControlPacket}
    (h : Recalls start past packets s) (hrun : start.run? past = some (packets, s)) {step : Step}
    {packet : Option ControlPacket} (hstep : s.step? step = some (packet, next)) :
    Recalls start (past ++ [step]) (packets ++ packet.toList) next := by
  have same (p : Prague) (hp : s.controller = .prague p) :
      ∃ p', s.controller = .prague p' ∧ p'.echo = p.echo := ⟨p, hp, rfl⟩
  cases effect_of_step? hstep with
  | deposit _ =>
      exact h.quiet none rfl (delayedPending_concat ..) (latestRcvNxt_concat ..) same rfl rfl
  | depositFound _ _ _ =>
      exact h.quiet none rfl (delayedPending_concat ..) (latestRcvNxt_concat ..) same rfl rfl
  | nothingFound _ _ =>
      exact h.quiet none rfl (delayedPending_concat ..) (latestRcvNxt_concat ..) same rfl rfl
  | acknowledge _ _ _ averages srtt controller connection _ controlled =>
      obtain ⟨p, hp, _⟩ := h.echo
      rw [hp] at controlled
      obtain ⟨p', rfl, hacknowledge⟩ := Controller.acknowledge?_prague controlled
      have hrcvNxt := Prague.rcvNxt_of_acknowledge hacknowledge
      refine h.quiet none rfl (delayedPending_concat ..) (latestRcvNxt_concat ..) ?_ hrcvNxt rfl
      intro p'' hp''
      cases hp.symm.trans hp''
      exact ⟨p', rfl, Prague.echo_of_acknowledge hacknowledge⟩
  | setPhase phase bytesInFlight =>
      exact h.quiet none rfl (delayedPending_concat ..) (latestRcvNxt_concat ..) same
        (s.connection.rcvNxt_enter phase bytesInFlight) rfl
  | signal event => exact h.signal hrun event
  | pollNothing _ =>
      exact h.quiet none rfl (delayedPending_concat ..) (latestRcvNxt_concat ..) same rfl rfl
  | poll packet rest queue =>
      exact h.quiet (some packet) rfl (delayedPending_concat ..) (latestRcvNxt_concat ..) same rfl
        queue.symm
  | setRcvNxt seq => exact h.setRcvNxt seq
  | setSndNxt _ =>
      exact h.quiet none rfl (delayedPending_concat ..) (latestRcvNxt_concat ..) same rfl rfl

theorem recalls_of_create {settings : Settings} (hvalid : settings.validate = .ok ())
    (halgorithm : settings.algorithm = .prague) :
    ∃ start, create settings = .ok start ∧ Recalls start [] [] start := by
  refine ⟨_, create_prague hvalid halgorithm, ⟨_, rfl, rfl, rfl⟩, rfl, rfl⟩

theorem recalls_of_run {start reached : Session} {steps : List Step}
    {packets : List ControlPacket} (hstart : Recalls start [] [] start)
    (hrun : start.run? steps = some (packets, reached)) :
    Recalls start steps packets reached :=
  run?_induction (motive := Recalls start) hstart
    (fun _ _ _ _ _ _ hpast hrecalls hstep => hrecalls.step hpast hstep) hrun

/-- In every run of a Prague session the packets handed out, followed by those
still queued, are the ones owed by its history. Only observations queue anything,
and only a step that sets it changes the next expected sequence number. -/
theorem packets_eq_owedPackets {settings : Settings} (hvalid : settings.validate = .ok ())
    (halgorithm : settings.algorithm = .prague) :
    ∃ start, create settings = .ok start ∧
      ∀ steps packets reached, start.run? steps = some (packets, reached) →
        packets ++ reached.outbox = owedPackets (start.observations steps) ∧
        reached.connection.rcvNxt = latestRcvNxt steps ∧
        ∀ step packet next, reached.step? step = some (packet, next) →
          (start.observed? steps step = none →
            packet.toList ++ next.outbox = reached.outbox) ∧
          ((∀ seq, step ≠ .setRcvNxt seq) →
            next.connection.rcvNxt = reached.connection.rcvNxt) := by
  obtain ⟨start, hcreate, hstart⟩ := recalls_of_create hvalid halgorithm
  refine ⟨start, hcreate, ?_⟩
  intro steps packets reached hrun
  have h := recalls_of_run hstart hrun
  refine ⟨h.packets, h.rcvNxt, ?_⟩
  intro step packet next hstep
  have hnext := h.step hrun hstep
  constructor
  · intro hobserved
    have hpackets := hnext.packets
    rw [observations_of_unobserved hobserved, ← h.packets, List.append_assoc] at hpackets
    exact List.append_cancel_left hpackets
  · intro hstays
    rw [hnext.rcvNxt, h.rcvNxt, latestRcvNxt_concat]
    cases step with
    | setRcvNxt seq => exact absurd rfl (hstays seq)
    | _ => rfl

def markingChanges : List Step :=
  [.signal .delayedAck, .setRcvNxt ⟨1000⟩, .signal .unmarked, .setRcvNxt ⟨2448⟩, .signal .marked,
    .poll, .setRcvNxt ⟨3896⟩, .signal .unmarked]

theorem packets_eq_owedPackets_markingChanges :
    Settings.default.validate = .ok () ∧ Settings.default.algorithm = .prague ∧
      ∃ start packets reached, create .default = .ok start ∧
        start.run? markingChanges = some (packets, reached) ∧
        packets ++ reached.outbox = [⟨⟨1000⟩, 0x10⟩, ⟨⟨2448⟩, 0x50⟩] := by
  have hvalid : Settings.default.validate = .ok () := by
    rw [Settings.validate_eq_ok_iff]
    decide +kernel
  obtain ⟨start, hcreate, h⟩ := packets_eq_owedPackets hvalid rfl
  cases Except.ok.inj (hcreate.symm.trans (create_prague hvalid rfl))
  have howed := (h markingChanges _ _ rfl).1
  exact ⟨hvalid, rfl, _, _, _, hcreate, rfl, howed⟩

end Session

end ScalableCongestion
