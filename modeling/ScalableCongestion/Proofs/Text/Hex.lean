import ScalableCongestion.Text.Blank
import ScalableCongestion.Text.Hex

/-! Which texts are hexadecimal, which bytes they spell or what is wrong with them,
and that printed bytes read back. A text is read by its bytes, of which those of a
character beyond ASCII are no digits. -/
namespace ScalableCongestion.Text

def isHexDigit (c : Char) : Bool :=
  c.isDigit || ('A' ≤ c && c ≤ 'F') || ('a' ≤ c && c ≤ 'f')

/-- Pairs of digits of either case. -/
def isHex (cs : List Char) : Bool := cs.length % 2 == 0 && cs.all isHexDigit

namespace Hex

/-- The codes of digits and of the first six letters in either case. -/
def DigitCode (n : Nat) : Prop :=
  (0x30 ≤ n ∧ n ≤ 0x39) ∨ (0x41 ≤ n ∧ n ≤ 0x46) ∨ (0x61 ≤ n ∧ n ≤ 0x66)

theorem isHexDigit_iff (c : Char) : isHexDigit c = true ↔ DigitCode c.toNat := by
  simp only [isHexDigit, Char.isDigit, Bool.or_eq_true, Bool.and_eq_true, decide_eq_true_eq,
    Char.le_def, UInt32.le_iff_toNat_le, DigitCode, Char.toNat, or_assoc]
  rfl

theorem digitValue?_eq_none_iff (b : UInt8) : digitValue? b = none ↔ ¬DigitCode b.toNat := by
  dsimp only [digitValue?]
  unfold DigitCode
  split
  · simp only [reduceCtorEq, false_iff]
    omega
  · split
    · simp only [reduceCtorEq, false_iff]
      omega
    · split
      · simp only [reduceCtorEq, false_iff]
        omega
      · simp only [true_iff]
        omega

theorem utf8EncodeChar_of_code {c : Char} (h : DigitCode c.toNat) :
    String.utf8EncodeChar c = [UInt8.ofNat c.toNat] := by
  have hascii : c.val.toNat ≤ 0x7f := by
    change c.toNat ≤ 0x7f
    unfold DigitCode at h
    omega
  exact if_pos hascii

theorem code_of_utf8EncodeChar {c : Char}
    (h : ∀ b ∈ String.utf8EncodeChar c, DigitCode b.toNat) : DigitCode c.toNat := by
  change DigitCode c.val.toNat
  dsimp only [String.utf8EncodeChar] at h
  have first {n : Nat} {rest : List UInt8}
      (h : ∀ b ∈ UInt8.ofNat n :: rest, DigitCode b.toNat) : DigitCode (n % 256) := by
    have hn := h _ List.mem_cons_self
    rwa [UInt8.toNat_ofNat'] at hn
  unfold DigitCode at first ⊢
  split at h
  · have := first h
    omega
  · split at h
    · have := first h
      omega
    · split at h
      · have := first h
        omega
      · have := first h
        omega

theorem flatMap_utf8EncodeChar {cs : List Char} (h : ∀ c ∈ cs, DigitCode c.toNat) :
    cs.flatMap String.utf8EncodeChar = cs.map fun c => UInt8.ofNat c.toNat := by
  induction cs with
  | nil => rfl
  | cons c cs ih =>
      rw [List.forall_mem_cons] at h
      rw [List.flatMap_cons, utf8EncodeChar_of_code h.1, ih h.2]
      rfl

theorem decode_eq_decodePairs {cs : List Char}
    (heven : (cs.flatMap String.utf8EncodeChar).length % 2 = 0) :
    decode cs = decodePairs 0 (cs.flatMap String.utf8EncodeChar) := by
  rw [decode, decodeBytes, if_neg (by omega)]

/-! ## What a text spells -/

structure Digit (c : Char) (d : Nat) : Prop where
  lt : d < 16
  toLower : c.toLower = d.digitChar

/-- Digits in pairs spell bytes, the higher half of a byte first. -/
inductive Spells : List Char → List UInt8 → Prop where
  | nil : Spells [] []
  | cons (ofHigh : Digit high h) (ofLow : Digit low l) (ofRest : Spells cs bytes) :
    Spells (high :: low :: cs) (UInt8.ofNat (16 * h + l) :: bytes)

variable {cs more : List Char} {bytes : List UInt8} {c : Char} {d : Nat}

theorem toNat_toLower (c : Char) :
    c.toLower.toNat = if 65 ≤ c.toNat ∧ c.toNat ≤ 90 then c.toNat + 32 else c.toNat := by
  unfold Char.toLower
  split
  · rename_i hupper
    have hle : c.toNat ≤ 90 := UInt32.le_iff_toNat_le.mp hupper.2
    rw [if_pos ⟨UInt32.le_iff_toNat_le.mp hupper.1, hle⟩]
    change (c.val + 32).toNat = c.val.toNat + 32
    change c.val.toNat ≤ 90 at hle
    rw [UInt32.toNat_add]
    exact Nat.mod_eq_of_lt (Nat.lt_of_le_of_lt (Nat.add_le_add_right hle 32) (by decide))
  · rename_i hupper
    rw [if_neg]
    exact hupper

theorem toNat_digitChar :
    ∀ d < 16, d.digitChar.toNat = if d < 10 then d + 48 else d + 87 := by
  decide

theorem digit_iff :
    Digit c d ↔ DigitCode c.toNat ∧ digitValue? (UInt8.ofNat c.toNat) = some d := by
  have hlower := toNat_toLower c
  constructor
  · rintro ⟨hlt, hdigit⟩
    rw [hdigit, toNat_digitChar d hlt] at hlower
    have hcode : DigitCode c.toNat := by
      unfold DigitCode
      split at hlower <;> split at hlower <;> omega
    refine ⟨hcode, ?_⟩
    unfold DigitCode at hcode
    rw [digitValue?, UInt8.toNat_ofNat', Nat.mod_eq_of_lt (by omega)]
    grind
  · rintro ⟨hcode, hvalue⟩
    unfold DigitCode at hcode
    rw [digitValue?, UInt8.toNat_ofNat', Nat.mod_eq_of_lt (by omega)] at hvalue
    have hlt : d < 16 := by grind
    refine ⟨hlt, Char.toNat_inj.mp ?_⟩
    rw [hlower, toNat_digitChar d hlt]
    grind

theorem exists_digit_iff (c : Char) : (∃ d, Digit c d) ↔ isHexDigit c = true := by
  simp only [digit_iff, exists_and_left, isHexDigit_iff]
  refine and_iff_left_of_imp fun hcode => ?_
  have hnone := not_congr (digitValue?_eq_none_iff (UInt8.ofNat c.toNat))
  rw [Classical.not_not, UInt8.toNat_ofNat',
    Nat.mod_eq_of_lt (by unfold DigitCode at hcode; omega)] at hnone
  exact Option.ne_none_iff_exists'.mp (hnone.mpr hcode)

theorem digit_digitChar (h : d < 16) : Digit d.digitChar d := by
  refine ⟨h, ?_⟩
  revert d
  decide

/-! The text of bytes spells them, also in another case or with more behind it. -/

theorem spells_encode (bytes : List UInt8) : Spells (encode bytes) bytes := by
  induction bytes with
  | nil => exact .nil
  | cons b bytes ih =>
      have hb := b.toNat_lt
      have hback : UInt8.ofNat (16 * (b.toNat / 16) + b.toNat % 16) = b := by
        rw [Nat.div_add_mod]
        exact UInt8.ofNat_toNat
      have hcons := Spells.cons (digit_digitChar (d := b.toNat / 16) (by omega))
        (digit_digitChar (d := b.toNat % 16) (by omega)) ih
      rwa [hback] at hcons

theorem Spells.of_toLower (h : Spells cs bytes) :
    ∀ digits : List Char, digits.map Char.toLower = cs.map Char.toLower → Spells digits bytes := by
  induction h with
  | nil =>
      intro digits hsame
      rw [List.map_eq_nil_iff.mp hsame]
      exact .nil
  | cons ofHigh ofLow _ ih =>
      intro digits hsame
      match digits with
      | [_] => simp at hsame
      | high :: low :: digits =>
          simp only [List.map_cons, List.cons.injEq] at hsame
          exact .cons ⟨ofHigh.lt, hsame.1.trans ofHigh.toLower⟩
            ⟨ofLow.lt, hsame.2.1.trans ofLow.toLower⟩ (ih digits hsame.2.2)

theorem Spells.append {behind : List UInt8} (h : Spells cs bytes) (hmore : Spells more behind) :
    Spells (cs ++ more) (bytes ++ behind) := by
  induction h with
  | nil => exact hmore
  | cons ofHigh ofLow _ ih => exact .cons ofHigh ofLow ih

theorem exists_spells_of_isHex : ∀ {cs : List Char}, isHex cs = true → ∃ bytes, Spells cs bytes
  | [], _ => ⟨[], .nil⟩
  | [c], h => by simp [isHex] at h
  | high :: low :: cs, h => by
      simp only [isHex, Bool.and_eq_true, beq_iff_eq, List.length_cons, List.all_cons] at h
      obtain ⟨heven, hhigh, hlow, hrest⟩ := h
      obtain ⟨_, ofHigh⟩ := (exists_digit_iff high).mpr hhigh
      obtain ⟨_, ofLow⟩ := (exists_digit_iff low).mpr hlow
      have hex : isHex cs = true := by
        rw [isHex, hrest, Bool.and_true, beq_iff_eq]
        omega
      obtain ⟨bytes, ofRest⟩ := exists_spells_of_isHex hex
      exact ⟨_, .cons ofHigh ofLow ofRest⟩

theorem Spells.isHexDigit (h : Spells cs bytes) : ∀ c ∈ cs, isHexDigit c = true := by
  induction h with
  | nil => exact List.forall_mem_nil _
  | cons ofHigh ofLow _ ih =>
      exact List.forall_mem_cons.mpr ⟨(exists_digit_iff _).mp ⟨_, ofHigh⟩,
        List.forall_mem_cons.mpr ⟨(exists_digit_iff _).mp ⟨_, ofLow⟩, ih⟩⟩

theorem Spells.decodePairs_eq (h : Spells cs bytes) (position : Nat) :
    decodePairs position (cs.map fun c => UInt8.ofNat c.toNat) = .ok bytes := by
  induction h generalizing position with
  | nil => rfl
  | cons ofHigh ofLow _ ih =>
      simp only [List.map_cons, decodePairs, digitAt, (digit_iff.mp ofHigh).2,
        (digit_iff.mp ofLow).2, ih (position + 2)]
      rfl

theorem Spells.length_eq (h : Spells cs bytes) : cs.length = 2 * bytes.length := by
  induction h with
  | nil => rfl
  | cons _ _ _ ih =>
      simp only [List.length_cons, ih]
      omega

theorem Spells.decode_eq (h : Spells cs bytes) : decode cs = .ok bytes := by
  have hdigits : ∀ c ∈ cs, DigitCode c.toNat := fun c hc =>
    (isHexDigit_iff c).mp (h.isHexDigit c hc)
  rw [decode_eq_decodePairs, flatMap_utf8EncodeChar hdigits]
  · exact h.decodePairs_eq 0
  · rw [flatMap_utf8EncodeChar hdigits, List.length_map, h.length_eq]
    omega

/-! ## What is wrong with a text -/

/-- What is wrong with the bytes of a text that spells nothing: their number, and
if that is even the first of them that is no digit. -/
inductive Misspelled : List UInt8 → HexFault → Prop where
  | oddLength (odd : text.length % 2 = 1) : Misspelled text .oddLength
  | invalidByte (even : (front ++ b :: back).length % 2 = 0)
    (digits : ∀ d ∈ front, DigitCode d.toNat) (wrong : ¬DigitCode b.toNat) :
    Misspelled (front ++ b :: back) (.invalidByte b front.length)

theorem digitAt_of_code {b : UInt8} (h : DigitCode b.toNat) (position : Nat) :
    ∃ d, digitAt b position = .ok d := by
  obtain ⟨d, hd⟩ := Option.ne_none_iff_exists'.mp
    (mt (digitValue?_eq_none_iff b).mp (Classical.not_not.mpr h))
  exact ⟨d, by rw [digitAt, hd]⟩

theorem digitAt_of_not_code {b : UInt8} (h : ¬DigitCode b.toNat) (position : Nat) :
    digitAt b position = .error (.invalidByte b position) := by
  rw [digitAt, (digitValue?_eq_none_iff b).mpr h]

/-- Digits before the wrong byte are taken two at a time, as they are read. -/
theorem decodePairs_of_wrong {b : UInt8} (wrong : ¬DigitCode b.toNat) :
    ∀ {front back : List UInt8} (position : Nat), (front ++ b :: back).length % 2 = 0 →
      (∀ d ∈ front, DigitCode d.toNat) →
      decodePairs position (front ++ b :: back) = .error (.invalidByte b (position + front.length))
  | [], [], _, heven, _ => by simp at heven
  | [], low :: back, position, _, _ => by
      rw [List.nil_append, decodePairs, digitAt_of_not_code wrong]
      rfl
  | [high], back, position, _, hdigits => by
      obtain ⟨_, hhigh⟩ := digitAt_of_code (hdigits high List.mem_cons_self) position
      rw [List.singleton_append, decodePairs, hhigh, digitAt_of_not_code wrong]
      rfl
  | high :: low :: front, back, position, heven, hdigits => by
      rw [List.forall_mem_cons, List.forall_mem_cons] at hdigits
      obtain ⟨_, hhigh⟩ := digitAt_of_code hdigits.1 position
      obtain ⟨_, hlow⟩ := digitAt_of_code hdigits.2.1 (position + 1)
      have heven' : (front ++ b :: back).length % 2 = 0 := by
        simp only [List.cons_append, List.length_cons] at heven
        omega
      have hrest := decodePairs_of_wrong wrong (position + 2) heven' hdigits.2.2
      rw [List.cons_append, List.cons_append, decodePairs, hhigh, hlow, hrest, Nat.add_right_comm]
      rfl

theorem codes_or_wrong (text : List UInt8) :
    (∀ b ∈ text, DigitCode b.toNat) ∨ ∃ front b back, text = front ++ b :: back ∧
      (∀ d ∈ front, DigitCode d.toNat) ∧ ¬DigitCode b.toNat := by
  induction text with
  | nil => exact .inl (List.forall_mem_nil _)
  | cons b text ih =>
      by_cases hcode : DigitCode b.toNat
      · rcases ih with hcodes | ⟨front, wrong, back, rfl, hfront, hwrong⟩
        · exact .inl (List.forall_mem_cons.mpr ⟨hcode, hcodes⟩)
        · exact .inr ⟨b :: front, wrong, back, rfl,
            List.forall_mem_cons.mpr ⟨hcode, hfront⟩, hwrong⟩
      · exact .inr ⟨[], b, text, rfl, List.forall_mem_nil _, hcode⟩

theorem Misspelled.decode_eq {fault : HexFault}
    (h : Misspelled (cs.flatMap String.utf8EncodeChar) fault) : decode cs = .error fault := by
  generalize hbytes : cs.flatMap String.utf8EncodeChar = text at h
  rw [decode, hbytes, decodeBytes]
  cases h with
  | oddLength odd => exact if_pos odd
  | invalidByte even digits wrong =>
      rw [if_neg (by omega), decodePairs_of_wrong wrong 0 even digits, Nat.zero_add]

theorem spells_or_misspelled (cs : List Char) :
    (∃ bytes, Spells cs bytes) ∨
      ∃ fault, Misspelled (cs.flatMap String.utf8EncodeChar) fault := by
  rcases Nat.mod_two_eq_zero_or_one (cs.flatMap String.utf8EncodeChar).length with heven | hodd
  · rcases codes_or_wrong (cs.flatMap String.utf8EncodeChar) with
      hcodes | ⟨front, b, back, hsplit, hfront, hwrong⟩
    · refine .inl (exists_spells_of_isHex ?_)
      have hdigits : ∀ c ∈ cs, DigitCode c.toNat := fun c hc =>
        code_of_utf8EncodeChar fun b hb => hcodes b (List.mem_flatMap.mpr ⟨c, hc, hb⟩)
      rw [flatMap_utf8EncodeChar hdigits, List.length_map] at heven
      simp only [isHex, Bool.and_eq_true, beq_iff_eq, List.all_eq_true, isHexDigit_iff]
      exact ⟨heven, hdigits⟩
    · rw [hsplit] at heven ⊢
      exact .inr ⟨_, .invalidByte heven hfront hwrong⟩
  · exact .inr ⟨_, .oddLength hodd⟩

theorem decode_eq_ok_iff : decode cs = .ok bytes ↔ Spells cs bytes := by
  refine ⟨?_, Spells.decode_eq⟩
  intro hdecode
  rcases spells_or_misspelled cs with ⟨bytes', h⟩ | ⟨fault, h⟩
  · cases hdecode.symm.trans h.decode_eq
    exact h
  · cases hdecode.symm.trans h.decode_eq

theorem decode_eq_error_iff {fault : HexFault} :
    decode cs = .error fault ↔ Misspelled (cs.flatMap String.utf8EncodeChar) fault := by
  refine ⟨?_, Misspelled.decode_eq⟩
  intro hdecode
  rcases spells_or_misspelled cs with ⟨bytes, h⟩ | ⟨fault', h⟩
  · cases hdecode.symm.trans h.decode_eq
  · cases hdecode.symm.trans h.decode_eq
    exact h

theorem exists_decode_iff (cs : List Char) :
    (∃ bytes, decode cs = .ok bytes) ↔ isHex cs = true := by
  simp only [decode_eq_ok_iff]
  refine ⟨?_, exists_spells_of_isHex⟩
  rintro ⟨bytes, h⟩
  rw [isHex, Bool.and_eq_true, beq_iff_eq, h.length_eq, List.all_eq_true]
  exact ⟨Nat.mul_mod_right 2 _, h.isHexDigit⟩

/-! ## Printed bytes -/

theorem decode_encode (bytes : List UInt8) : decode (encode bytes) = .ok bytes :=
  (spells_encode bytes).decode_eq

theorem isBlank_of_isHexDigit (h : isHexDigit c = true) : isBlank c = false := by
  have hcode := (isHexDigit_iff c).mp h
  unfold DigitCode at hcode
  simp [isBlank]
  omega

theorem Spells.trim_eq {before after : List Char} (h : Spells cs bytes) (hbefore : Blanks before)
    (hafter : Blanks after) : trim (before ++ cs ++ after) = cs :=
  trim_append hbefore (fun c hc => isBlank_of_isHexDigit (h.isHexDigit c hc)) hafter

theorem trim_encode (bytes : List UInt8) : trim (encode bytes) = encode bytes := by
  have h := (spells_encode bytes).trim_eq (List.forall_mem_nil _) (List.forall_mem_nil _)
  rwa [List.append_nil] at h

end Hex

end ScalableCongestion.Text
