import Mathlib.Data.List.Forall2
import ScalableCongestion.Session

/-! Runs of a session, taken apart at the front and at the end. What every step
keeps, every run keeps, in one session or between two that run side by side. -/
namespace ScalableCongestion.Session

variable {s middle last : Session} {packets : List ControlPacket}

theorem run?_cons_eq_some_iff {step : Step} {steps : List Step} :
    s.run? (step :: steps) = some (packets, last) ↔
      ∃ packet next rest, s.step? step = some (packet, next) ∧
        next.run? steps = some (rest, last) ∧ packets = packet.toList ++ rest := by
  simp only [run?, Option.bind_eq_bind, Option.bind_eq_some_iff, Prod.exists, Option.pure_def,
    Option.some.injEq, Prod.mk.injEq]
  constructor
  · rintro ⟨packet, next, hstep, rest, _, hrun, rfl, rfl⟩
    exact ⟨packet, next, rest, hstep, hrun, rfl⟩
  · rintro ⟨packet, next, rest, hstep, hrun, rfl⟩
    exact ⟨packet, next, hstep, rest, last, hrun, rfl, rfl⟩

theorem run?_append_eq_some_iff {past steps : List Step} :
    s.run? (past ++ steps) = some (packets, last) ↔
      ∃ before middle after, s.run? past = some (before, middle) ∧
        middle.run? steps = some (after, last) ∧ packets = before ++ after := by
  induction past generalizing s packets with
  | nil =>
      constructor
      · intro h
        exact ⟨[], s, packets, rfl, h, rfl⟩
      · rintro ⟨before, middle, after, hpast, hsteps, rfl⟩
        cases hpast
        exact hsteps
  | cons step past ih =>
      simp only [List.cons_append, run?_cons_eq_some_iff, ih]
      constructor
      · rintro ⟨packet, next, rest, hstep, ⟨before, middle, after, hpast, hsteps, rfl⟩, rfl⟩
        exact ⟨packet.toList ++ before, middle, after, ⟨packet, next, before, hstep, hpast, rfl⟩,
          hsteps, (List.append_assoc ..).symm⟩
      · rintro ⟨_, middle, after, ⟨packet, next, before, hstep, hpast, rfl⟩, hsteps, rfl⟩
        exact ⟨packet, next, before ++ after, hstep, ⟨before, middle, after, hpast, hsteps, rfl⟩,
          List.append_assoc ..⟩

theorem run?_concat {past : List Step} {step : Step} {packet : Option ControlPacket}
    (hpast : s.run? past = some (packets, middle))
    (hstep : middle.step? step = some (packet, last)) :
    s.run? (past ++ [step]) = some (packets ++ packet.toList, last) :=
  run?_append_eq_some_iff.mpr ⟨packets, middle, packet.toList, hpast,
    run?_cons_eq_some_iff.mpr ⟨packet, last, [], hstep, rfl, (List.append_nil _).symm⟩, rfl⟩

/-- A fact about the steps so far, the packets handed out and the state reached
holds of every run if it holds at the start and each further step keeps it. -/
theorem run?_induction {motive : List Step → List ControlPacket → Session → Prop}
    (start : motive [] [] s)
    (extend : ∀ past packets middle step packet next, s.run? past = some (packets, middle) →
      motive past packets middle → middle.step? step = some (packet, next) →
      motive (past ++ [step]) (packets ++ packet.toList) next)
    {steps : List Step} (hrun : s.run? steps = some (packets, last)) :
    motive steps packets last := by
  suffices key : ∀ steps past before after middle, s.run? past = some (before, middle) →
      motive past before middle → middle.run? steps = some (after, last) →
      motive (past ++ steps) (before ++ after) last from
    key steps [] [] packets s rfl start hrun
  intro steps
  induction steps with
  | nil =>
      intro past before after middle _ hmotive hsteps
      cases hsteps
      rw [List.append_nil, List.append_nil]
      exact hmotive
  | cons step steps ih =>
      intro past before after middle hpast hmotive hsteps
      obtain ⟨packet, next, rest, hstep, hrest, rfl⟩ := run?_cons_eq_some_iff.mp hsteps
      have := ih (past ++ [step]) (before ++ packet.toList) rest next (run?_concat hpast hstep)
        (extend past before middle step packet next hpast hmotive hstep) hrest
      simpa only [List.append_assoc, List.singleton_append] using this

theorem run?_keeps {kept : Session → Prop}
    (keeps : ∀ s step packet next, kept s → s.step? step = some (packet, next) → kept next)
    {steps : List Step} (hrun : s.run? steps = some (packets, last)) (hstart : kept s) :
    kept last :=
  run?_induction (motive := fun _ _ reached => kept reached) hstart
    (fun _ _ middle step packet next _ hkept hstep => keeps middle step packet next hkept hstep)
    hrun

/-- The run of `steps` passes through `middle`, which it reaches with `past`. -/
def Passes (s : Session) (steps past : List Step) (middle : Session) : Prop :=
  ∃ later packets, steps = past ++ later ∧ s.run? past = some (packets, middle)

theorem passes_of_run {steps : List Step} (hrun : s.run? steps = some (packets, last)) :
    s.Passes steps steps last :=
  ⟨[], packets, (List.append_nil steps).symm, hrun⟩

def StaysIn (phase : Phase) (s : Session) (steps : List Step) : Prop :=
  ∀ past middle, s.Passes steps past middle → middle.connection.phase = phase

theorem StaysIn.passed {phase : Phase} {steps past : List Step} (h : s.StaysIn phase steps)
    (hpast : s.Passes steps past middle) : s.StaysIn phase past := by
  obtain ⟨later, _, rfl, _⟩ := hpast
  rintro before earlier ⟨rest, packets, rfl, hrun⟩
  exact h before earlier ⟨rest ++ later, packets, List.append_assoc .., hrun⟩

theorem StaysIn.induction {phase : Phase} {motive : List Step → Session → Prop}
    (start : motive [] s)
    (extend : ∀ past packets middle step packet next, s.run? past = some (packets, middle) →
      motive past middle → middle.connection.phase = phase → next.connection.phase = phase →
      middle.step? step = some (packet, next) → motive (past ++ [step]) next)
    {steps : List Step} (hstays : s.StaysIn phase steps)
    (hrun : s.run? steps = some (packets, last)) : motive steps last := by
  revert hstays
  refine run?_induction (motive := fun past _ reached => s.StaysIn phase past → motive past reached)
    (fun _ => start) ?_ hrun
  intro past packets middle step packet next hpast hmiddle hstep hstays
  have hpassed : s.Passes (past ++ [step]) past middle := ⟨[step], packets, rfl, hpast⟩
  have hnext := hstays _ next (passes_of_run (run?_concat hpast hstep))
  exact extend past packets middle step packet next hpast (hmiddle (hstays.passed hpassed))
    (hstays past middle hpassed) hnext hstep

theorem StaysIn.nil {phase : Phase} (hphase : s.connection.phase = phase) :
    s.StaysIn phase [] := by
  rintro past middle ⟨later, _, hsplit, hrun⟩
  obtain ⟨rfl, _⟩ := List.append_eq_nil_iff.mp hsplit.symm
  cases hrun
  exact hphase

theorem StaysIn.cons {phase : Phase} {next : Session} {step : Step} {steps : List Step}
    {packet : Option ControlPacket} (hphase : s.connection.phase = phase)
    (hstep : s.step? step = some (packet, next)) (hlater : next.StaysIn phase steps) :
    s.StaysIn phase (step :: steps) := by
  rintro past middle ⟨later, _, hsplit, hrun⟩
  cases past with
  | nil =>
      cases hrun
      exact hphase
  | cons first past =>
      obtain ⟨rfl, rfl⟩ := List.cons.inj hsplit
      obtain ⟨_, next', rest, hstep', hrest, _⟩ := run?_cons_eq_some_iff.mp hrun
      cases hstep.symm.trans hstep'
      exact hlater past middle ⟨later, rest, rfl, hrest⟩

/-- Every step of a run is allowed where it is taken. -/
def Along (allowed : Session → Step → Prop) (s : Session) : List Step → Prop
  | [] => True
  | step :: steps => allowed s step ∧
      ∀ packet next, s.step? step = some (packet, next) → next.Along allowed steps

theorem Along.cons {allowed : Session → Step → Prop} {next : Session} {step : Step}
    {steps : List Step} {packet : Option ControlPacket} (hallowed : allowed s step)
    (hstep : s.step? step = some (packet, next)) (hlater : next.Along allowed steps) :
    s.Along allowed (step :: steps) := by
  refine ⟨hallowed, ?_⟩
  intro packet' next' hstep'
  cases hstep.symm.trans hstep'
  exact hlater

theorem Along.take {allowed : Session → Step → Prop} {steps : List Step}
    (h : s.Along allowed steps) (k : Nat) : s.Along allowed (steps.take k) := by
  induction steps generalizing s k with
  | nil =>
      rw [List.take_nil]
      exact h
  | cons step steps ih =>
      cases k with
      | zero => exact trivial
      | succ k => exact ⟨h.1, fun packet next hstep => ih (h.2 packet next hstep) k⟩

def Agree {Output : Type} (related : Session → Session → Prop) :
    Option (Output × Session) → Option (Output × Session) → Prop :=
  Option.Rel fun result result' => result.1 = result'.1 ∧ related result.2 result'.2

theorem Agree.bind {Output Next : Type} {related : Session → Session → Prop}
    {first first' : Option (Output × Session)}
    {following following' : Output × Session → Option (Next × Session)}
    (h : Agree related first first')
    (hfollowing : ∀ output s s', first = some (output, s) → related s s' →
      Agree related (following (output, s)) (following' (output, s'))) :
    Agree related (first.bind following) (first'.bind following') := by
  cases h with
  | none => exact .none
  | @some result result' hresult =>
      obtain ⟨output, s⟩ := result
      obtain ⟨output', s'⟩ := result'
      obtain ⟨hout, hrelated⟩ := hresult
      cases hout
      exact hfollowing output s s' rfl hrelated

/-- Two runs of matched steps agree if every matched pair does that the first
run allows. -/
theorem run?_agree {related : Session → Session → Prop} {matched : Step → Step → Prop}
    {allowed : Session → Step → Prop}
    (keeps : ∀ s s' step step', related s s' → matched step step' → allowed s step →
      Agree related (s.step? step) (s'.step? step'))
    {s' : Session} {steps steps' : List Step} (hstart : related s s')
    (hsteps : List.Forall₂ matched steps steps') (hallowed : s.Along allowed steps) :
    Agree related (s.run? steps) (s'.run? steps') := by
  -- what is allowed moves along the first run, so the second needs no condition
  induction hsteps generalizing s s' with
  | nil => exact .some ⟨rfl, hstart⟩
  | cons hmatched _ ih =>
      refine (keeps s s' _ _ hstart hmatched hallowed.1).bind ?_
      intro packet next next' hstep hnext
      refine (ih hnext (hallowed.2 packet next hstep)).bind ?_
      intro packets last last' _ hlast
      exact .some ⟨rfl, hlast⟩

def total (amount : Session → Step → Session → Nat) (s : Session) : List Step → Nat
  | [] => 0
  | step :: steps => match s.step? step with
    | none => 0
    | some (_, next) => amount s step next + next.total amount steps

theorem total_cons {amount : Session → Step → Session → Nat} {next : Session} {step : Step}
    {packet : Option ControlPacket} (hstep : s.step? step = some (packet, next))
    (steps : List Step) :
    s.total amount (step :: steps) = amount s step next + next.total amount steps := by
  rw [total, hstep]

theorem total_mul (factor : Nat) (amount : Session → Step → Session → Nat) (s : Session)
    (steps : List Step) :
    s.total (fun s step next => factor * amount s step next) steps =
      factor * s.total amount steps := by
  induction steps generalizing s with
  | nil => rfl
  | cons step steps ih =>
      rw [total, total]
      split
      · rfl
      · rw [ih, Nat.mul_add]

/-- A cost that each step pays from its credit and a potential is paid for over
the whole run. -/
theorem total_add_potential_le {kept : Session → Prop}
    {cost credit : Session → Step → Session → Nat} (potential : Session → Nat)
    (keeps : ∀ s step packet next, kept s → s.step? step = some (packet, next) → kept next)
    (pays : ∀ s step packet next, kept s → s.step? step = some (packet, next) →
      cost s step next + potential next ≤ credit s step next + potential s)
    {steps : List Step} (hstart : kept s) (hrun : s.run? steps = some (packets, last)) :
    s.total cost steps + potential last ≤ s.total credit steps + potential s := by
  induction steps generalizing s packets with
  | nil =>
      cases Option.some.inj hrun
      exact Nat.le_refl _
  | cons step steps ih =>
      obtain ⟨packet, next, rest, hstep, hrest, _⟩ := run?_cons_eq_some_iff.mp hrun
      have hpays := pays s step packet next hstart hstep
      have hnext := ih (keeps s step packet next hstart hstep) hrest
      rw [total_cons hstep, total_cons hstep]
      omega

end ScalableCongestion.Session
