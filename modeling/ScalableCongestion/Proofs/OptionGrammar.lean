import ScalableCongestion.Marking.OptionList

/-! The grammar of option lists and the search for an ACE option in them. A list
is a row of written entries up to the point where its bytes form no entry any
more; the search finds the first ACE option of the right length in that row. -/
namespace ScalableCongestion

namespace OptionItem

def encode : OptionItem → List UInt8
  | noOperation => [1]
  | option kind data => kind :: UInt8.ofNat (data.length + 2) :: data

/-- The end byte and the no-operation byte are no kinds, and a length is one byte. -/
def WellFormed : OptionItem → Prop
  | noOperation => True
  | option kind data => kind ≠ 0 ∧ kind ≠ 1 ∧ data.length + 2 ≤ 255

def IsAce : OptionItem → Prop
  | noOperation => False
  | option kind data => kind = 15 ∧ data.length + 2 = 6

instance : DecidablePred IsAce
  | noOperation => inferInstanceAs (Decidable False)
  | option kind data => inferInstanceAs (Decidable (kind = 15 ∧ data.length + 2 = 6))

/-- Bytes that do not start with an entry: none at all, an end byte, a kind
without a length, or a length that is too short or reaches past the end. -/
def Stuck (bytes : List UInt8) : Prop :=
  bytes = [] ∨ (∃ rest, bytes = 0 :: rest) ∨ (∃ kind, kind ≠ 0 ∧ kind ≠ 1 ∧ bytes = [kind]) ∨
    ∃ kind length body, kind ≠ 0 ∧ kind ≠ 1 ∧ bytes = kind :: length :: body ∧
      (length.toNat < 2 ∨ bytes.length < length.toNat)

theorem encode_length_pos (item : OptionItem) : 0 < item.encode.length := by
  cases item <;> simp [encode]

theorem next?_option {kind length : UInt8} {body : List UInt8} (hend : kind ≠ 0)
    (hnoOperation : kind ≠ 1) :
    next? (kind :: length :: body) =
      if 2 ≤ length.toNat ∧ length.toNat - 2 ≤ body.length then
        some (option kind (body.take (length.toNat - 2)), body.drop (length.toNat - 2))
      else none := by
  simp only [next?, endKind, noOperationKind, hend, hnoOperation, ↓reduceIte]

theorem next?_encode {item : OptionItem} (h : item.WellFormed) (rest : List UInt8) :
    next? (item.encode ++ rest) = some (item, rest) := by
  cases item with
  | noOperation => rfl
  | option kind data =>
      obtain ⟨hend, hnoOperation, hlength⟩ := h
      have hbyte : (UInt8.ofNat (data.length + 2)).toNat = data.length + 2 := by
        rw [UInt8.toNat_ofNat']
        omega
      rw [encode, List.cons_append, List.cons_append, next?_option hend hnoOperation, hbyte,
        Nat.add_sub_cancel, List.length_append, if_pos (by omega), List.take_left,
        List.drop_left]

theorem next?_eq_some {bytes rest : List UInt8} {item : OptionItem}
    (h : next? bytes = some (item, rest)) :
    item.WellFormed ∧ bytes = item.encode ++ rest := by
  cases bytes with
  | nil => contradiction
  | cons kind bytes =>
      by_cases hend : kind = 0
      · simp [next?, endKind, hend] at h
      by_cases hnoOperation : kind = 1
      · subst hnoOperation
        cases Option.some.inj h
        exact ⟨trivial, rfl⟩
      cases bytes with
      | nil => simp [next?, endKind, noOperationKind, hend, hnoOperation] at h
      | cons length body =>
          rw [next?_option hend hnoOperation] at h
          split at h
          · next hfits =>
              cases Option.some.inj h
              have hbyte := length.toNat_lt
              have htake : (body.take (length.toNat - 2)).length = length.toNat - 2 := by
                rw [List.length_take]
                omega
              have hsum : length.toNat - 2 + 2 = length.toNat := by omega
              refine ⟨⟨hend, hnoOperation, by omega⟩, ?_⟩
              rw [encode, htake, hsum, UInt8.ofNat_toNat, List.cons_append, List.cons_append,
                List.take_append_drop]
          · contradiction

theorem next?_eq_none_iff (bytes : List UInt8) : next? bytes = none ↔ Stuck bytes := by
  constructor
  · intro h
    cases bytes with
    | nil => exact .inl rfl
    | cons kind bytes =>
        by_cases hend : kind = 0
        · exact .inr (.inl ⟨bytes, hend ▸ rfl⟩)
        by_cases hnoOperation : kind = 1
        · subst hnoOperation
          contradiction
        cases bytes with
        | nil => exact .inr (.inr (.inl ⟨kind, hend, hnoOperation, rfl⟩))
        | cons length body =>
            rw [next?_option hend hnoOperation] at h
            split at h
            · contradiction
            · refine .inr (.inr (.inr ⟨kind, length, body, hend, hnoOperation, rfl, ?_⟩))
              simp only [List.length_cons]
              omega
  · rintro (rfl | ⟨rest, rfl⟩ | ⟨kind, hend, hnoOperation, rfl⟩ |
      ⟨kind, length, body, hend, hnoOperation, rfl, hlength⟩)
    · rfl
    · rfl
    · simp [next?, endKind, noOperationKind, hend, hnoOperation]
    · rw [next?_option hend hnoOperation, if_neg]
      simp only [List.length_cons] at hlength
      omega

theorem ace?_eq_some_iff {item : OptionItem} {n : UInt32} :
    item.ace? = some ⟨n⟩ ↔ item = option 15 (AceOption.wordBytes n) := by
  constructor
  · intro h
    cases item with
    | noOperation => contradiction
    | option kind data =>
        unfold ace? at h
        dsimp only at h
        split at h
        · next hkind =>
            split at h
            · cases Option.some.inj h
              rw [hkind, AceOption.wordBytes_wordOfBytes]
              rfl
            · contradiction
        · contradiction
  · rintro rfl
    simp only [ace?, AceOption.kind, ↓reduceIte, AceOption.wordBytes,
      AceOption.wordOfBytes_wordBytes]

theorem ace?_eq_none_iff {item : OptionItem} : item.ace? = none ↔ ¬item.IsAce := by
  cases item with
  | noOperation => simp only [ace?, IsAce, not_false_eq_true]
  | option kind data =>
      by_cases hkind : kind = 15
      · subst hkind
        rcases data with _ | ⟨a, _ | ⟨b, _ | ⟨c, _ | ⟨d, _ | ⟨e, data⟩⟩⟩⟩⟩ <;>
          simp [ace?, IsAce, AceOption.kind]
      · simp only [ace?, AceOption.kind, hkind, ↓reduceIte, IsAce, false_and, not_false_eq_true]

end OptionItem

open OptionItem

theorem optionItems_cons {bytes rest : List UInt8} {item : OptionItem}
    (h : next? bytes = some (item, rest)) :
    optionItems bytes = item :: optionItems rest := by
  rw [optionItems]
  split
  · next hnone => rw [hnone] at h; contradiction
  · next hsome => cases Option.some.inj (hsome.symm.trans h); rfl

theorem optionItems_stuck {bytes : List UInt8} (h : Stuck bytes) : optionItems bytes = [] := by
  rw [optionItems]
  split
  · rfl
  · next hsome => rw [(next?_eq_none_iff bytes).mpr h] at hsome; contradiction

theorem optionItems_append {items : List OptionItem} (h : ∀ item ∈ items, item.WellFormed)
    (rest : List UInt8) :
    optionItems (items.flatMap encode ++ rest) = items ++ optionItems rest := by
  induction items with
  | nil => rfl
  | cons item items ih =>
      have hitem := h item List.mem_cons_self
      have hitems := ih fun other hother => h other (List.mem_cons_of_mem item hother)
      rw [List.flatMap_cons, List.append_assoc, optionItems_cons (next?_encode hitem _), hitems,
        List.cons_append]

theorem exists_stuck_rest (bytes : List UInt8) :
    (∀ item ∈ optionItems bytes, item.WellFormed) ∧
      ∃ rest, bytes = (optionItems bytes).flatMap encode ++ rest ∧ Stuck rest := by
  induction hlength : bytes.length using Nat.strongRecOn generalizing bytes with
  | ind n ih =>
      cases hnext : next? bytes with
      | none =>
          have hstuck := (next?_eq_none_iff bytes).mp hnext
          rw [optionItems_stuck hstuck]
          exact ⟨nofun, bytes, rfl, hstuck⟩
      | some found =>
          obtain ⟨item, rest⟩ := found
          have hshorter := length_lt_of_next? hnext
          obtain ⟨hitem, hbytes⟩ := next?_eq_some hnext
          obtain ⟨hitems, last, hrest, hstuck⟩ := ih rest.length (by omega) rest rfl
          rw [optionItems_cons hnext]
          refine ⟨List.forall_mem_cons.mpr ⟨hitem, hitems⟩, last, ?_, hstuck⟩
          rw [List.flatMap_cons, List.append_assoc, ← hrest]
          exact hbytes

theorem optionItems_length_le (bytes : List UInt8) :
    (optionItems bytes).length ≤ bytes.length := by
  have hwritten (items : List OptionItem) : items.length ≤ (items.flatMap encode).length := by
    induction items with
    | nil => exact Nat.le_refl _
    | cons item items ih =>
        have := item.encode_length_pos
        rw [List.flatMap_cons, List.length_append, List.length_cons]
        omega
  obtain ⟨_, rest, hbytes, _⟩ := exists_stuck_rest bytes
  have hlength := congrArg List.length hbytes
  have := hwritten (optionItems bytes)
  rw [List.length_append] at hlength
  omega

/-- Entries to step over, then an ACE option with the count `n`, then anything. -/
structure FoundAt (bytes : List UInt8) (skipped : List OptionItem) (n : UInt32)
    (rest : List UInt8) : Prop where
  wellFormed : ∀ item ∈ skipped, item.WellFormed
  notAce : ∀ item ∈ skipped, ¬item.IsAce
  bytes_eq : bytes = skipped.flatMap encode ++ [15, 6] ++ AceOption.wordBytes n ++ rest

theorem encode_ace (n : UInt32) :
    (option 15 (AceOption.wordBytes n)).encode = [15, 6] ++ AceOption.wordBytes n := rfl

theorem FoundAt.optionItems_eq {bytes rest : List UInt8} {skipped : List OptionItem} {n : UInt32}
    (h : FoundAt bytes skipped n rest) :
    optionItems bytes = skipped ++ option 15 (AceOption.wordBytes n) :: optionItems rest := by
  have hace : (option 15 (AceOption.wordBytes n)).WellFormed := by
    refine ⟨by decide, by decide, ?_⟩
    simp only [AceOption.wordBytes, List.length_cons, List.length_nil]
    omega
  rw [h.bytes_eq, List.append_assoc, List.append_assoc, optionItems_append h.wellFormed,
    ← List.append_assoc, ← encode_ace, optionItems_cons (next?_encode hace rest)]

theorem FoundAt.skipped_eq {bytes rest : List UInt8} {skipped : List OptionItem} {n : UInt32}
    (h : FoundAt bytes skipped n rest) :
    skipped = (optionItems bytes).takeWhile fun item => ¬item.IsAce := by
  rw [h.optionItems_eq, List.takeWhile_append_of_pos, List.takeWhile_cons_of_neg, List.append_nil]
  · simp [IsAce, AceOption.wordBytes]
  · intro item hitem
    simpa using h.notAce item hitem

theorem findAce?_of_foundAt {bytes rest : List UInt8} {skipped : List OptionItem} {n : UInt32}
    (h : FoundAt bytes skipped n rest) : findAce? bytes = some ⟨n⟩ := by
  rw [findAce?, h.optionItems_eq, List.findSome?_eq_some_iff]
  exact ⟨skipped, _, _, rfl, ace?_eq_some_iff.mpr rfl,
    fun item hitem => ace?_eq_none_iff.mpr (h.notAce item hitem)⟩

theorem foundAt_of_findAce? {bytes : List UInt8} {n : UInt32} (h : findAce? bytes = some ⟨n⟩) :
    ∃ skipped rest, FoundAt bytes skipped n rest := by
  obtain ⟨skipped, found, others, hitems, hfound, hskipped⟩ := List.findSome?_eq_some_iff.mp h
  cases ace?_eq_some_iff.mp hfound
  obtain ⟨hwellFormed, last, hbytes, _⟩ := exists_stuck_rest bytes
  rw [hitems] at hwellFormed hbytes
  refine ⟨skipped, others.flatMap encode ++ last, ?_, ?_, ?_⟩
  · exact fun item hitem => hwellFormed item (List.mem_append_left _ hitem)
  · exact fun item hitem => ace?_eq_none_iff.mp (hskipped item hitem)
  · rw [hbytes, List.flatMap_append, List.flatMap_cons, encode_ace]
    simp only [List.append_assoc]

theorem foundAt_unique {bytes rest rest' : List UInt8} {skipped skipped' : List OptionItem}
    {n n' : UInt32} (h : FoundAt bytes skipped n rest) (h' : FoundAt bytes skipped' n' rest') :
    skipped = skipped' ∧ n = n' ∧ rest = rest' := by
  have hskipped : skipped = skipped' := h.skipped_eq.trans h'.skipped_eq.symm
  have hn : n = n' := by
    cases Option.some.inj ((findAce?_of_foundAt h).symm.trans (findAce?_of_foundAt h'))
    rfl
  subst hskipped hn
  exact ⟨rfl, rfl, List.append_cancel_left (h.bytes_eq.symm.trans h'.bytes_eq)⟩

theorem findAce?_eq_none_iff (bytes : List UInt8) :
    findAce? bytes = none ↔
      ∃ (items : List OptionItem) (rest : List UInt8),
        (∀ item ∈ items, item.WellFormed ∧ ¬item.IsAce) ∧
        bytes = items.flatMap encode ++ rest ∧ Stuck rest := by
  constructor
  · intro h
    obtain ⟨hwellFormed, rest, hbytes, hstuck⟩ := exists_stuck_rest bytes
    have hnone := List.findSome?_eq_none_iff.mp h
    exact ⟨optionItems bytes, rest,
      fun item hitem => ⟨hwellFormed item hitem, ace?_eq_none_iff.mp (hnone item hitem)⟩,
      hbytes, hstuck⟩
  · rintro ⟨items, rest, hitems, rfl, hstuck⟩
    rw [findAce?, optionItems_append fun item hitem => (hitems item hitem).1,
      optionItems_stuck hstuck, List.append_nil, List.findSome?_eq_none_iff]
    exact fun item hitem => ace?_eq_none_iff.mpr (hitems item hitem).2

/-- The search is exact: it finds a count just when the list is entries to step
over and an ACE option with that count, in one way only, and finds nothing just
when entries to step over lead to bytes that form no entry. What it reads are
pieces of the list, one after the other, at most as many as the list has bytes. -/
theorem findAce?_exact (bytes : List UInt8) :
    (∀ n, findAce? bytes = some ⟨n⟩ ↔ ∃ skipped rest, FoundAt bytes skipped n rest) ∧
    (∀ skipped skipped' n n' rest rest', FoundAt bytes skipped n rest →
      FoundAt bytes skipped' n' rest' → skipped = skipped' ∧ n = n' ∧ rest = rest') ∧
    (findAce? bytes = none ↔
      ∃ (items : List OptionItem) (rest : List UInt8),
        (∀ item ∈ items, item.WellFormed ∧ ¬item.IsAce) ∧
        bytes = items.flatMap encode ++ rest ∧ Stuck rest) ∧
    (optionItems bytes).flatMap encode <+: bytes ∧
    (optionItems bytes).length ≤ bytes.length := by
  obtain ⟨_, last, hbytes, _⟩ := exists_stuck_rest bytes
  refine ⟨?_, ?_, findAce?_eq_none_iff bytes, ⟨last, hbytes.symm⟩, optionItems_length_le bytes⟩
  · intro n
    exact ⟨foundAt_of_findAce?, fun ⟨_, _, h⟩ => findAce?_of_foundAt h⟩
  · intro _ _ _ _ _ _ h h'
    exact foundAt_unique h h'

/-- An ACE option of the wrong length is stepped over by its own length. -/
theorem findAce?_exact_wrong_length :
    FoundAt [1, 15, 4, 0, 0, 15, 6, 0, 0, 11, 184, 0] [.noOperation, .option 15 [0, 0]] 3000 [0] ∧
      findAce? [1, 15, 4, 0, 0, 15, 6, 0, 0, 11, 184, 0] = some ⟨3000⟩ := by
  have hfound : FoundAt [1, 15, 4, 0, 0, 15, 6, 0, 0, 11, 184, 0]
      [.noOperation, .option 15 [0, 0]] 3000 [0] := by
    refine ⟨?_, ?_, rfl⟩
    · simp [WellFormed]
    · simp [IsAce]
  exact ⟨hfound, ((findAce?_exact _).1 3000).mpr ⟨_, _, hfound⟩⟩

end ScalableCongestion
