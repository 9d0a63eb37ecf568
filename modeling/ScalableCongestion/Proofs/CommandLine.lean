import ScalableCongestion.CommandLine.Outcome
import ScalableCongestion.Proofs.Decimal.Layout

/-! Arguments of the command line: which of them ask for a command, and that the
exit code for a wrong usage is left to those that ask for nothing. -/
namespace ScalableCongestion.Invocation

/-- Arguments that fit the usage and ask for a command, with any options. -/
def Asks (args : List String) (command : Command) : Prop :=
  ∃ level settingsPath, parse? args = some (.run ⟨level, settingsPath, command⟩)

def decimal (n : UInt32) : String := String.ofList (Nat.toDigits 10 n.toNat)

variable {world : Surroundings} {args : List String} {text : String}

/-! ## Commands -/

theorem isDashed_eq_false (h : text.toList.head? ≠ some '-') : isDashed text = false := by
  have hfront : text.front ≠ '-' := by
    rw [String.front_eq, String.front?_eq]
    cases hhead : text.toList.head? with
    | none => decide
    | some c =>
        rintro rfl
        exact h hhead
  rw [isDashed, beq_false_of_ne hfront.symm, Bool.false_and]

theorem operand?_plain (h : isDashed text = false) : operand? [text] = some text := by
  unfold operand?
  split
  · rename_i hlist
    cases hlist
  · rename_i hlist
    cases hlist
    rw [h]
    rfl
  · rename_i hlist
    cases hlist
  · rename_i hsingle _
    exact absurd rfl (hsingle text)

theorem isHelp_eq_false (h : text.toList.head? ≠ some '-') : isHelp text = false := by
  rw [isHelp, Bool.or_eq_false_iff]
  constructor
  · rw [beq_eq_false_iff_ne]
    rintro rfl
    exact h (by decide)
  · rw [Bool.eq_false_iff]
    intro hletter
    obtain ⟨rest, hrest⟩ := List.isPrefixOf_iff_prefix.mp hletter
    rw [← hrest] at h
    exact h rfl

theorem parse?_eq_request? {name : String} (hhelp : isHelp name = false)
    (hversion : isVersion name = false) (hdashed : isDashed name = false) (args : List String) :
    parse? (name :: args) = request? none none name args := by
  -- The recursion is behind the tests, so its equations are not needed.
  delta parse? parseFrom?
  exact (if_neg (Bool.eq_false_iff.mp hhelp)).trans
    ((if_neg (Bool.eq_false_iff.mp hversion)).trans (if_neg (Bool.eq_false_iff.mp hdashed)))

theorem parse?_operand {name : String} (hname : name ∈ commandNames)
    (h : text.toList.head? ≠ some '-') :
    parse? [name, text] = (command? name [text]).map fun command => .run ⟨none, none, command⟩ := by
  have hplain : ∀ name ∈ commandNames, isHelp name = false ∧ isVersion name = false ∧
      isDashed name = false ∧ name ≠ "help" := by decide
  obtain ⟨hhelp, hversion, hdashed, hother⟩ := hplain name hname
  have hasks : asksHelp name [text] = false := by
    rw [asksHelp, isHelp_eq_false h, List.head?_nil, Option.any_none, Bool.and_false,
      Bool.or_false]
  rw [parse?_eq_request? hhelp hversion hdashed, request?, if_neg hother, if_neg]
  rw [hasks]
  exact fun hboth => Bool.false_ne_true hboth.2

theorem asks_decode (h : text.toList.head? ≠ some '-') : Asks ["decode", text] (.decode text) := by
  refine ⟨none, none, ?_⟩
  rw [parse?_operand (by decide) h, command?, operand?_plain (isDashed_eq_false h)]
  rfl

theorem splitSign_toDigits (n : Nat) :
    Decimal.splitSign (Nat.toDigits 10 n) = (false, Nat.toDigits 10 n) := by
  have hdigits := Decimal.isDigit_toDigits (n := n)
  unfold Decimal.splitSign
  split
  · rename_i hsign
    rw [hsign] at hdigits
    exact absurd (hdigits '-' List.mem_cons_self) (by decide)
  · rename_i hsign
    rw [hsign] at hdigits
    exact absurd (hdigits '+' List.mem_cons_self) (by decide)
  · rfl

theorem allDigits_toDigits (n : Nat) : Decimal.allDigits (Nat.toDigits 10 n) = true := by
  rw [Decimal.allDigits, Bool.and_eq_true, Bool.not_eq_true', List.isEmpty_eq_false_iff,
    List.all_eq_true]
  exact ⟨Nat.toDigits_ne_nil, Decimal.isDigit_toDigits⟩

theorem count?_decimal (n : UInt32) : count? (decimal n) = some n := by
  have hn := n.toNat_lt
  have htyped : Decimal.typedInteger? (Nat.toDigits 10 n.toNat) = some (n.toNat : Int) := by
    simp only [Decimal.typedInteger?, splitSign_toDigits, allDigits_toDigits, if_true,
      Decimal.natOfDigits_toDigits]
    rw [if_neg (by decide), if_pos (Nat.lt_of_lt_of_le hn (by decide))]
  rw [count?, decimal, String.toList_ofList, htyped, Option.bind_some, if_pos]
  · rw [Int.toNat_natCast, UInt32.ofNat_toNat]
  · exact ⟨Int.natCast_nonneg _, Int.ofNat_lt.mpr hn⟩

theorem head?_decimal (n : UInt32) : (decimal n).toList.head? ≠ some '-' := by
  rw [decimal, String.toList_ofList]
  intro hhead
  exact absurd (Decimal.isDigit_toDigits '-' (List.mem_of_mem_head? hhead)) (by decide)

theorem asks_encode (n : UInt32) : Asks ["encode", decimal n] (.encode n) := by
  refine ⟨none, none, ?_⟩
  rw [parse?_operand (by decide) (head?_decimal n), command?,
    operand?_plain (isDashed_eq_false (head?_decimal n))]
  change ((count? (decimal n)).map Command.encode).map _ = _
  rw [count?_decimal]
  rfl

theorem runArguments_encode {n : UInt32} (h : Asks args (.encode n)) :
    runArguments world args = .printing [encodedLine n] := by
  obtain ⟨level, settingsPath, h⟩ := h
  rw [runArguments, h]
  rfl

theorem runArguments_decode (h : Asks args (.decode text)) :
    runArguments world args = decode text := by
  obtain ⟨level, settingsPath, h⟩ := h
  rw [runArguments, h]
  rfl

/-! ## Failures of usage -/

theorem fault_decode_ne_usage (hex : String) : (decode hex).fault ≠ some .usage := by
  unfold decode
  split
  · exact nofun
  · split <;> exact nofun

theorem fault_replayScenario_ne_usage (scenario : Scenario) (base : Settings) :
    (replayScenario scenario base).fault ≠ some .usage := by
  unfold replayScenario
  split
  · exact nofun
  · next session _ =>
      cases hfault : (session.replay scenario.steps).2 with
      | none => simp only [hfault, Option.map_none, ne_eq, reduceCtorEq, not_false_eq_true]
      | some fault => cases fault <;> simp [hfault, ReplayFault.commandFault]

theorem settings_ne_usage (settingsPath : Option String) :
    settings world settingsPath ≠ .error .usage := by
  unfold settings
  split
  · exact nofun
  · split
    · exact nofun
    · next loaded _ => cases loaded <;> exact nofun

theorem fault_replay_ne_usage (settingsPath : Option String) (path : String) :
    (replay world settingsPath path).fault ≠ some .usage := by
  unfold replay
  split
  · next fault hfault =>
      intro h
      exact settings_ne_usage settingsPath (hfault.trans (congrArg _ (Option.some.inj h)))
  · split
    · exact nofun
    · split
      · exact nofun
      · exact fault_replayScenario_ne_usage _ _

theorem fault_runArguments_eq_usage_iff :
    (runArguments world args).fault = some .usage ↔ parse? args = none := by
  unfold runArguments
  split
  · next hnone => exact iff_of_true rfl hnone
  · next hmanual => exact iff_of_false nofun (by rw [hmanual]; exact nofun)
  · next i hrun =>
      refine iff_of_false ?_ (by rw [hrun]; exact nofun)
      unfold run
      split
      · exact nofun
      · exact fault_decode_ne_usage _
      · exact fault_replay_ne_usage _ _

theorem exitCode_eq_two_iff (o : Outcome) : o.exitCode = 2 ↔ o.fault = some .usage := by
  obtain ⟨lines, fault⟩ := o
  cases fault with
  | none => exact iff_of_false nofun nofun
  | some fault => cases fault <;> simp [Outcome.exitCode, CommandFault.exitCode]

/-- The exit code for a wrong usage depends on the arguments alone. -/
theorem exitCode_runArguments_eq_two_iff :
    (runArguments world args).exitCode = 2 ↔ parse? args = none :=
  (exitCode_eq_two_iff _).trans fault_runArguments_eq_usage_iff

/-- Help is asked for behind an operand that fits, but not behind a double dash or
an operand that does not fit. -/
example : parse? ["encode", "5", "-h"] = some (.manual (.command "encode")) ∧
    parse? ["decode", "--", "-h"] = some (.run ⟨none, none, .decode "-h"⟩) ∧
    parse? ["encode", "x", "-h"] = none := by
  decide

end ScalableCongestion.Invocation
