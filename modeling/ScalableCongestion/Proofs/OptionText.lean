import ScalableCongestion.Proofs.CommandLine
import ScalableCongestion.Proofs.OptionCodec
import ScalableCongestion.Proofs.Text.Hex

/-! The option as text, on the command line. The line that is printed for a count
is read back in any case, with blanks around its digits and further digits behind
them; and a text is read just if its digits spell bytes that begin with an option,
and else refused for the first thing that is wrong. -/
namespace ScalableCongestion.Invocation
open Text (Blanks isHex)
open Text.Hex (Misspelled Spells)

/-- The digits of a text spell these bytes. Blanks may stand around them. -/
def Reads (text : String) (bytes : List UInt8) : Prop :=
  ∃ before digits after, text.toList = before ++ digits ++ after ∧ Blanks before ∧ Blanks after ∧
    Spells digits bytes

/-- What is wrong with the digits of a text, the blanks around them left out. -/
def Unreadable (text : String) (cause : Text.HexFault) : Prop :=
  Misspelled ((Text.trim text.toList).flatMap String.utf8EncodeChar) cause

variable {world : Surroundings} {args : List String} {text : String} {bytes : List UInt8}

/-! ## Texts -/

theorem decode_trim_eq_ok_iff :
    Text.Hex.decode (Text.trim text.toList) = .ok bytes ↔ Reads text bytes := by
  rw [Text.Hex.decode_eq_ok_iff]
  constructor
  · intro h
    obtain ⟨before, after, hbefore, hafter, htext⟩ := Text.exists_trim text.toList
    exact ⟨before, _, after, htext, hbefore, hafter, h⟩
  · rintro ⟨before, digits, after, htext, hbefore, hafter, h⟩
    rwa [htext, h.trim_eq hbefore hafter]

theorem Reads.decode_ok {o : AceOption} (h : Reads text bytes)
    (hoption : AceOption.decode bytes = .ok o) : decode text = .printing [o.describe] := by
  rw [decode, decode_trim_eq_ok_iff.mpr h]
  simp only [hoption]

theorem Reads.decode_error {cause : OptionFault} (h : Reads text bytes)
    (hoption : AceOption.decode bytes = .error cause) :
    decode text = .failing (.refused (.malformedOption cause)) := by
  rw [decode, decode_trim_eq_ok_iff.mpr h]
  simp only [hoption]

theorem Unreadable.decode_eq {cause : Text.HexFault} (h : Unreadable text cause) :
    decode text = .failing (.badHex cause) := by
  rw [decode, Text.Hex.decode_eq_error_iff.mpr h]

theorem reads_or_unreadable (text : String) :
    (∃ bytes, Reads text bytes) ∨ ∃ cause, Unreadable text cause := by
  refine (Text.Hex.spells_or_misspelled (Text.trim text.toList)).imp_left ?_
  rintro ⟨bytes, h⟩
  exact ⟨bytes, decode_trim_eq_ok_iff.mp h.decode_eq⟩

theorem exitCode_decode_eq_zero_iff :
    (decode text).exitCode = 0 ↔ ∃ bytes o, Reads text bytes ∧ AceOption.decode bytes = .ok o := by
  constructor
  · intro hcode
    rcases reads_or_unreadable text with ⟨bytes, hreads⟩ | ⟨cause, hcause⟩
    · cases hoption : AceOption.decode bytes with
      | ok o => exact ⟨bytes, o, hreads, hoption⟩
      | error cause =>
          rw [hreads.decode_error hoption] at hcode
          cases hcode
    · rw [hcause.decode_eq] at hcode
      cases hcode
  · rintro ⟨bytes, o, hreads, hoption⟩
    rw [hreads.decode_ok hoption]
    rfl

theorem Reads.head?_ne (h : Reads text bytes) : text.toList.head? ≠ some '-' := by
  obtain ⟨before, digits, after, htext, hbefore, hafter, hspells⟩ := h
  intro hhead
  have hdash := List.mem_of_mem_head? hhead
  rw [htext, List.mem_append, List.mem_append] at hdash
  rcases hdash with (hdash | hdash) | hdash
  · exact absurd (hbefore '-' hdash) (by decide)
  · exact absurd (hspells.isHexDigit '-' hdash) (by decide)
  · exact absurd (hafter '-' hdash) (by decide)

theorem reads_encodedLine {n : UInt32} {before digits more after : List Char}
    (hbefore : Blanks before)
    (hdigits : digits.map Char.toLower = (encodedLine n).toList.map Char.toLower)
    (hmore : isHex more = true) (hafter : Blanks after) :
    ∃ rest, Reads (String.ofList (before ++ (digits ++ more) ++ after))
      (AceOption.encode ⟨n⟩ ++ rest) := by
  rw [encodedLine, String.toList_ofList] at hdigits
  obtain ⟨rest, hrest⟩ := Text.Hex.exists_spells_of_isHex hmore
  have hoption := (Text.Hex.spells_encode _).of_toLower digits hdigits
  exact ⟨rest, before, _, after, String.toList_ofList, hbefore, hafter, hoption.append hrest⟩

/-- The option keeps its count through text: what is printed for a count is read
as that count, however its digits are cased, and whatever blanks stand around and
digits behind them. An argument is read just if it spells bytes that begin with an
option, which is printed, and else nothing is. Options of the command line make
no difference to either command. -/
theorem option_text :
    (∀ n, ∃ line, (∀ world, runArguments world ["encode", decimal n] = .printing [line]) ∧
      ∀ before digits more after, Blanks before →
        digits.map Char.toLower = line.toList.map Char.toLower → isHex more = true →
        Blanks after → ∀ world,
          runArguments world ["decode", String.ofList (before ++ (digits ++ more) ++ after)] =
            .printing ["ACE (CE-Bytes=" ++ decimal n ++ ")"]) ∧
    (∀ world text, text.toList.head? ≠ some '-' →
      ((runArguments world ["decode", text]).exitCode = 0 ↔
        ∃ bytes o, Reads text bytes ∧ AceOption.decode bytes = .ok o) ∧
      (∀ bytes o, Reads text bytes → AceOption.decode bytes = .ok o →
        runArguments world ["decode", text] = .printing [o.describe]) ∧
      (∀ bytes cause, Reads text bytes → AceOption.decode bytes = .error cause →
        runArguments world ["decode", text] = .failing (.refused (.malformedOption cause))) ∧
      (∀ cause, Unreadable text cause →
        runArguments world ["decode", text] = .failing (.badHex cause)) ∧
      ((∃ bytes, Reads text bytes) ∨ ∃ cause, Unreadable text cause)) ∧
    ∀ world args,
      (∀ n, Asks args (.encode n) →
        runArguments world args = runArguments world ["encode", decimal n]) ∧
      ∀ text, text.toList.head? ≠ some '-' → Asks args (.decode text) →
        runArguments world args = runArguments world ["decode", text] := by
  refine ⟨?printed, ?argument, ?options⟩
  case printed =>
    intro n
    refine ⟨encodedLine n, fun world => runArguments_encode (asks_encode n), ?_⟩
    intro before digits more after hbefore hdigits hmore hafter world
    obtain ⟨rest, hreads⟩ := reads_encodedLine hbefore hdigits hmore hafter
    rw [runArguments_decode (asks_decode hreads.head?_ne),
      hreads.decode_ok (AceOption.decode_encode_append ⟨n⟩ rest)]
    rfl
  case argument =>
    intro world text hhead
    rw [runArguments_decode (asks_decode hhead)]
    exact ⟨exitCode_decode_eq_zero_iff, fun _ _ => Reads.decode_ok, fun _ _ => Reads.decode_error,
      fun _ => Unreadable.decode_eq, reads_or_unreadable text⟩
  case options =>
    refine fun world args => ⟨?_, ?_⟩
    · intro n hasks
      rw [runArguments_encode hasks, runArguments_encode (asks_encode n)]
    · intro text hhead hasks
      rw [runArguments_decode hasks, runArguments_decode (asks_decode hhead)]

def nowhere : Surroundings := ⟨⟨fun _ => none, []⟩, [], fun _ => []⟩

/-- Capitals, blanks and another byte around the digits; a wrong length byte with
a no-break space behind it; and two texts with a wrong digit, of which one lacks a
digit too. -/
theorem option_text_capitals :
    runArguments nowhere ["encode", "4294967294"] = .printing ["0f06fffffffe"] ∧
      runArguments nowhere ["decode", "\t0F06FFFFFFfe0A "] =
        .printing ["ACE (CE-Bytes=4294967294)"] ∧
      runArguments nowhere ["decode", "0f05fffffffe\u00a0"] =
        .failing (.refused (.malformedOption (.unexpectedLength 5))) ∧
      runArguments nowhere ["decode", " 0f0g"] = .failing (.badHex (.invalidByte 0x67 3)) ∧
      runArguments nowhere ["decode", " 0g0"] = .failing (.badHex .oddLength) ∧
      runArguments nowhere ["-l", "debug", "encode", "7"] = .printing ["0f0600000007"] := by
  obtain ⟨hprinted, hargument, hoptions⟩ := option_text
  obtain ⟨line, hline, hvariants⟩ := hprinted 4294967294
  have hlast : line = "0f06fffffffe" :=
    List.singleton_inj.mp (congrArg Outcome.lines ((hline nowhere).symm.trans
      (runArguments_encode (asks_encode 4294967294))))
  subst hlast
  obtain ⟨_, _, hrefused, _, _⟩ := hargument nowhere "0f05fffffffe\u00a0" (by decide)
  obtain ⟨_, _, _, hwrong, _⟩ := hargument nowhere " 0f0g" (by decide)
  obtain ⟨_, _, _, hodd, _⟩ := hargument nowhere " 0g0" (by decide)
  have hseven : encodedLine 7 = "0f0600000007" := by decide +kernel
  refine ⟨hline _, ?_, ?_, ?_, ?_, ?_⟩
  · exact hvariants ['\t'] "0F06FFFFFFfe".toList ['0', 'A'] [' '] (by decide) (by decide)
      (by decide) (by decide) _
  · exact hrefused [15, 5, 255, 255, 255, 254] _ (decode_trim_eq_ok_iff.mp rfl) rfl
  · exact hwrong _ (Text.Hex.decode_eq_error_iff.mp rfl)
  · exact hodd _ (.oddLength rfl)
  · rw [(hoptions _ _).1 7 ⟨some "debug", none, by decide⟩, runArguments_encode (asks_encode 7),
      hseven]

end ScalableCongestion.Invocation
