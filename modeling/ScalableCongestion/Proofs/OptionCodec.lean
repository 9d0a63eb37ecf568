import ScalableCongestion.Marking.AceOption

/-! The Accurate ECN option on the wire. What is written is read back whatever
follows it, and bytes that are read are the written form of the count they
hold. Bytes that are no option are refused for the first thing that is wrong
with them. -/
namespace ScalableCongestion.AceOption

def bigEndian (bytes : List UInt8) : Nat :=
  bytes.foldl (fun value byte => value * 256 + byte.toNat) 0

/-- Bytes that begin with the option for the count `n`. -/
structure Begins (bytes : List UInt8) (n : UInt32) : Prop where
  size : 6 ≤ bytes.length
  kind : bytes[0]? = some 15
  length : bytes[1]? = some 6
  count : bigEndian ((bytes.drop 2).take 4) = n.toNat

/-- What is wrong with bytes that are no option. Each cause presumes that none
before it applies, and sizes are those of all the bytes. -/
inductive Refused (bytes : List UInt8) : OptionFault → Prop where
  | noHeader (short : bytes.length < 2) : Refused bytes (.truncated bytes.length)
  | kind (k : UInt8) (header : 2 ≤ bytes.length) (found : bytes[0]? = some k) (wrong : k ≠ 15) :
    Refused bytes (.unexpectedKind k)
  | length (l : UInt8) (header : 2 ≤ bytes.length) (ofKind : bytes[0]? = some 15)
    (found : bytes[1]? = some l) (wrong : l ≠ 6) : Refused bytes (.unexpectedLength l)
  | noCount (header : 2 ≤ bytes.length) (ofKind : bytes[0]? = some 15)
    (ofLength : bytes[1]? = some 6) (short : bytes.length < 6) :
    Refused bytes (.truncated bytes.length)

theorem toNat_wordOfBytes (a b c d : UInt8) :
    (wordOfBytes a b c d).toNat = bigEndian [a, b, c, d] := by
  have ha := a.toNat_lt
  have hb := b.toNat_lt
  have hc := c.toNat_lt
  have hd := d.toNat_lt
  simp only [wordOfBytes, bigEndian, UInt32.toNat_ofNat', List.foldl_cons, List.foldl_nil]
  omega

theorem appendTo_eq (o : AceOption) (written : List UInt8) :
    o.appendTo written = written ++ o.encode := by
  rw [appendTo, List.append_assoc, List.append_assoc]
  rfl

theorem decode_encode_append (o : AceOption) (rest : List UInt8) :
    decode (o.encode ++ rest) = .ok o := by
  change Except.ok (AceOption.mk _) = .ok o
  rw [wordOfBytes_wordBytes]

variable {bytes : List UInt8} {n : UInt32} {fault : OptionFault}

theorem begins_cons (a b c d : UInt8) (rest : List UInt8) :
    Begins (15 :: 6 :: a :: b :: c :: d :: rest) (wordOfBytes a b c d) := by
  refine ⟨?_, rfl, rfl, (toNat_wordOfBytes a b c d).symm⟩
  simp only [List.length_cons]
  omega

theorem Begins.eq_encode_append (h : Begins bytes n) : ∃ rest, bytes = encode ⟨n⟩ ++ rest := by
  obtain ⟨hsize, hkind, hlength, hcount⟩ := h
  match bytes with
  | k :: l :: a :: b :: c :: d :: rest =>
      cases Option.some.inj hkind
      cases Option.some.inj hlength
      have hn : wordOfBytes a b c d = n :=
        UInt32.toNat_inj.mp ((toNat_wordOfBytes a b c d).trans hcount)
      refine ⟨rest, ?_⟩
      rw [← hn, encode, wordBytes_wordOfBytes]
      rfl

theorem Begins.decode_eq (h : Begins bytes n) : decode bytes = .ok ⟨n⟩ := by
  obtain ⟨rest, rfl⟩ := h.eq_encode_append
  exact decode_encode_append ⟨n⟩ rest

theorem Begins.encode_eq_take (h : Begins bytes n) : encode ⟨n⟩ = bytes.take 6 := by
  obtain ⟨rest, rfl⟩ := h.eq_encode_append
  exact (List.take_left' rfl).symm

theorem Refused.decode_eq (h : Refused bytes fault) : decode bytes = .error fault := by
  cases h with
  | noHeader short =>
      match bytes with
      | [] => rfl
      | [_] => rfl
  | kind k header found wrong =>
      match bytes with
      | _ :: _ :: _ =>
          cases Option.some.inj found
          exact if_pos wrong
  | length l header ofKind found wrong =>
      match bytes with
      | _ :: _ :: _ =>
          cases Option.some.inj ofKind
          cases Option.some.inj found
          exact if_pos wrong
  | noCount header ofKind ofLength short =>
      match bytes with
      | _ :: _ :: rest =>
          cases Option.some.inj ofKind
          cases Option.some.inj ofLength
          match rest with
          | [] => rfl
          | [_] => rfl
          | [_, _] => rfl
          | [_, _, _] => rfl

theorem begins_or_refused (bytes : List UInt8) :
    (∃ n, Begins bytes n) ∨ ∃ fault, Refused bytes fault := by
  rcases Nat.lt_or_ge bytes.length 2 with hshort | hheader
  · exact .inr ⟨_, .noHeader hshort⟩
  match bytes with
  | k :: l :: rest =>
      by_cases hkind : k = 15
      · subst hkind
        by_cases hlength : l = 6
        · subst hlength
          match rest with
          | a :: b :: c :: d :: rest => exact .inl ⟨_, begins_cons a b c d rest⟩
          | [] | [_] | [_, _] | [_, _, _] => exact .inr ⟨_, .noCount hheader rfl rfl (by simp)⟩
        · exact .inr ⟨_, .length l hheader rfl rfl hlength⟩
      · exact .inr ⟨_, .kind k hheader rfl hkind⟩

theorem decode_eq_ok_iff : decode bytes = .ok ⟨n⟩ ↔ Begins bytes n := by
  refine ⟨?_, Begins.decode_eq⟩
  intro hdecode
  rcases begins_or_refused bytes with ⟨n', h⟩ | ⟨fault, h⟩
  · cases hdecode.symm.trans h.decode_eq
    exact h
  · cases hdecode.symm.trans h.decode_eq

theorem decode_eq_error_iff : decode bytes = .error fault ↔ Refused bytes fault := by
  refine ⟨?_, Refused.decode_eq⟩
  intro hdecode
  rcases begins_or_refused bytes with ⟨n', h⟩ | ⟨fault', h⟩
  · cases hdecode.symm.trans h.decode_eq
  · cases hdecode.symm.trans h.decode_eq
    exact h

/-- The law of the wire format. Writing appends the six bytes of the option and
reading takes them back; reading succeeds just on bytes that begin with an
option, whose first six bytes are its written form, and otherwise says what is
wrong first, which is no reason to end a connection. -/
theorem wire_format :
    (∀ (o : AceOption) (written : List UInt8), o.appendTo written = written ++ o.encode) ∧
    (∀ (o : AceOption) (rest : List UInt8), decode (o.encode ++ rest) = .ok o) ∧
    (∀ bytes n, decode bytes = .ok ⟨n⟩ ↔ Begins bytes n) ∧
    (∀ bytes n, decode bytes = .ok ⟨n⟩ → encode ⟨n⟩ = bytes.take 6) ∧
    (∀ bytes fault, decode bytes = .error fault ↔ Refused bytes fault) ∧
    ∀ bytes fault, decode bytes = .error fault →
      (Fault.malformedOption fault).recoverable = true := by
  refine ⟨appendTo_eq, decode_encode_append, fun _ _ => decode_eq_ok_iff, ?_,
    fun _ _ => decode_eq_error_iff, fun _ _ _ => rfl⟩
  intro bytes n hdecode
  exact (decode_eq_ok_iff.mp hdecode).encode_eq_take

/-- A byte more than needed, and two bytes with everything wrong at once. -/
theorem wire_format_kindFirst :
    decode [15, 6, 255, 255, 255, 254, 9] = .ok ⟨4294967294⟩ ∧
      encode ⟨4294967294⟩ = [15, 6, 255, 255, 255, 254] ∧
      Refused [16, 5] (.unexpectedKind 16) ∧
      (Fault.malformedOption (.unexpectedKind 16)).recoverable = true := by
  obtain ⟨_, _, _, htake, hrefused, hrecoverable⟩ := wire_format
  exact ⟨rfl, htake [15, 6, 255, 255, 255, 254, 9] 4294967294 rfl, (hrefused [16, 5] _).mp rfl,
    hrecoverable [16, 5] _ rfl⟩

end ScalableCongestion.AceOption
