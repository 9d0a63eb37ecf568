import ScalableCongestion.Json.Parser
import ScalableCongestion.Json.Printer

/-! A document reads back as it was written, whatever blanks were put into it: its
numbers digit by digit, its texts with all their characters, its members in their
order. -/
namespace ScalableCongestion

/-- A literal as the grammar of numbers spells it: no zero in front of other
digits of the whole part, and digits in an exponent if there is one. -/
structure Decimal.Literal.Spelled (l : Decimal.Literal) : Prop where
  whole_ne_nil : l.whole ≠ []
  whole_digits : ∀ c ∈ l.whole, c.isDigit = true
  leading : l.whole.head? = some '0' → l.whole = ['0']
  fraction_digits : ∀ c ∈ l.fraction, c.isDigit = true
  exponent_digits : ∀ e, l.exponent = some e → e.digits ≠ [] ∧ ∀ c ∈ e.digits, c.isDigit = true

namespace Json

/-! ## Blanks -/

theorem skipSpace_append {blanks : List Char} (h : ∀ c ∈ blanks, isSpace c = true)
    (rest : List Char) : skipSpace (blanks ++ rest) = skipSpace rest :=
  List.dropWhile_append_of_pos h

theorem skipSpace_of_head {c : Char} (h : isSpace c = false) (rest : List Char) :
    skipSpace (c :: rest) = c :: rest :=
  List.dropWhile_cons_of_neg (by rw [h]; exact Bool.false_ne_true)

theorem value?_blanks (fuel : Nat) {blanks : List Char} (h : ∀ c ∈ blanks, isSpace c = true)
    (rest : List Char) : value? fuel (blanks ++ rest) = value? fuel rest := by
  cases fuel with
  | zero => rw [value?, value?]
  | succ fuel => rw [value?, value?, skipSpace_append h]

/-! ## Numbers -/

/-- What may follow a number without being taken for a part of it. -/
def Ends (rest : List Char) : Prop :=
  ∀ c ∈ rest.head?, c.isDigit = false ∧ c ≠ '.' ∧ c ≠ 'e' ∧ c ≠ 'E'

theorem digits?_append {ds rest : List Char} (hne : ds ≠ []) (hds : ∀ c ∈ ds, c.isDigit = true)
    (hrest : ∀ c ∈ rest.head?, c.isDigit = false) : digits? (ds ++ rest) = some (ds, rest) := by
  have htake : rest.takeWhile Char.isDigit = [] := by
    cases rest with
    | nil => rfl
    | cons c rest => exact List.takeWhile_cons_of_neg (by simp [hrest c rfl])
  have hdrop : rest.dropWhile Char.isDigit = rest := by
    cases rest with
    | nil => rfl
    | cons c rest => exact List.dropWhile_cons_of_neg (by simp [hrest c rfl])
  unfold digits?
  rw [List.takeWhile_append_of_pos hds, List.dropWhile_append_of_pos hds, htake, hdrop,
    List.append_nil]
  cases ds with
  | nil => exact absurd rfl hne
  | cons d ds => rfl

theorem exponent?_ends {rest : List Char} (hrest : Ends rest) :
    exponent? rest = some (none, rest) := by
  cases rest with
  | nil => rfl
  | cons c rest =>
      obtain ⟨_, _, he, hE⟩ := hrest c rfl
      simp only [exponent?, he, hE, or_self, ↓reduceIte]

theorem exponent?_text {e : Decimal.ExponentPart} (hne : e.digits ≠ [])
    (hdigits : ∀ c ∈ e.digits, c.isDigit = true) {rest : List Char} (hrest : Ends rest) :
    exponent? (e.text ++ rest) = some (some e, rest) := by
  obtain ⟨negative, ds⟩ := e
  have hds := digits?_append hne hdigits fun c hc => (hrest c hc).1
  cases negative <;>
    simp [exponent?, Decimal.ExponentPart.text, exponentDigits?, hds]

def fractionText (ds : List Char) : List Char := if ds.isEmpty then [] else '.' :: ds

def exponentText : Option Decimal.ExponentPart → List Char
  | none => []
  | some e => e.text

theorem exponent?_exponentText {l : Decimal.Literal} (h : l.Spelled) {rest : List Char}
    (hrest : Ends rest) :
    exponent? (exponentText l.exponent ++ rest) = some (l.exponent, rest) := by
  cases hexponent : l.exponent with
  | none => exact exponent?_ends hrest
  | some e =>
      obtain ⟨hne, hdigits⟩ := h.exponent_digits e hexponent
      exact exponent?_text hne hdigits hrest

theorem head_exponentText (exponent : Option Decimal.ExponentPart) {rest : List Char}
    (hrest : Ends rest) :
    ∀ c ∈ (exponentText exponent ++ rest).head?, c.isDigit = false ∧ c ≠ '.' := by
  intro c hc
  cases exponent with
  | none => exact ⟨(hrest c hc).1, (hrest c hc).2.1⟩
  | some e =>
      cases Option.some.inj hc
      exact ⟨rfl, by decide⟩

theorem fraction?_fractionText {ds rest : List Char} (hds : ∀ c ∈ ds, c.isDigit = true)
    (hrest : ∀ c ∈ rest.head?, c.isDigit = false ∧ c ≠ '.') :
    fraction? (fractionText ds ++ rest) = some (ds, rest) := by
  cases ds with
  | nil =>
      cases rest with
      | nil => rfl
      | cons c rest =>
          rw [fractionText, List.isEmpty_nil, if_pos rfl, List.nil_append, fraction?]
          exact fun _ h => (hrest c rfl).2 (List.cons.inj h).1
  | cons d ds =>
      exact digits?_append (List.cons_ne_nil d ds) hds fun c hc => (hrest c hc).1

theorem head_fractionText (ds : List Char) {rest : List Char}
    (hrest : ∀ c ∈ rest.head?, c.isDigit = false ∧ c ≠ '.') :
    ∀ c ∈ (fractionText ds ++ rest).head?, c.isDigit = false := by
  intro c hc
  cases ds with
  | nil => exact (hrest c hc).1
  | cons d ds =>
      cases Option.some.inj hc
      rfl

theorem whole?_append {l : Decimal.Literal} (h : l.Spelled) {rest : List Char}
    (hrest : ∀ c ∈ rest.head?, c.isDigit = false) :
    whole? (l.whole ++ rest) = some (l.whole, rest) := by
  rw [whole?, digits?_append h.whole_ne_nil h.whole_digits hrest, Option.bind_some]
  exact if_neg fun hzero => hzero.2 (h.leading hzero.1)

theorem unsigned?_text {l : Decimal.Literal} (h : l.Spelled) {rest : List Char}
    (hrest : Ends rest) :
    unsigned? l.negative
      (l.whole ++ (fractionText l.fraction ++ (exponentText l.exponent ++ rest))) =
      some (l, rest) := by
  have hhead := head_exponentText l.exponent hrest
  simp only [unsigned?, whole?_append h (head_fractionText l.fraction hhead),
    fraction?_fractionText h.fraction_digits hhead, exponent?_exponentText h hrest,
    Option.bind_eq_bind, Option.bind_some, Option.pure_def]

theorem text_eq (l : Decimal.Literal) (rest : List Char) :
    l.text ++ rest = (if l.negative then ['-'] else []) ++
      (l.whole ++ (fractionText l.fraction ++ (exponentText l.exponent ++ rest))) := by
  simp only [Decimal.Literal.text, List.append_assoc]
  rfl

theorem number?_text {l : Decimal.Literal} (h : l.Spelled) {rest : List Char} (hrest : Ends rest) :
    number? (l.text ++ rest) = some (l, rest) := by
  have hunsigned := unsigned?_text h hrest
  rw [text_eq]
  cases hnegative : l.negative with
  | true =>
      rw [hnegative] at hunsigned
      exact hunsigned
  | false =>
      rw [hnegative] at hunsigned
      rw [if_neg Bool.false_ne_true, List.nil_append, number?]
      · exact hunsigned
      · intro tail htail
        obtain ⟨d, ds, hds⟩ := List.exists_cons_of_ne_nil h.whole_ne_nil
        have hdigit := h.whole_digits d (by rw [hds]; exact List.mem_cons_self)
        rw [hds, List.cons_append] at htail
        rw [(List.cons.inj htail).1] at hdigit
        cases hdigit

/-! ## Texts -/

theorem hexValue?_digitChar : ∀ n < 16, hexValue? (Nat.digitChar n) = some n := by decide

theorem codes?_plain {c : Char} (hquote : c ≠ '"') (hslash : c ≠ '\\') (hlow : ¬c.toNat < 0x20)
    (rest : List Char) :
    codes? (c :: rest) = (codes? rest).map fun (codes, rest) => (c.toNat :: codes, rest) := by
  rw [codes?]
  · simp only [hlow, hslash, or_self, ↓reduceIte]
  · exact fun h => hquote h
  · exact fun _ _ _ _ _ h => absurd h hslash
  · exact fun _ _ h => absurd h hslash

theorem codes?_escape {e : Char} {code : Nat} (hcode : escape? e = some code) (hu : e ≠ 'u')
    (rest : List Char) :
    codes? ('\\' :: e :: rest) = (codes? rest).map fun (codes, rest) => (code :: codes, rest) := by
  rw [codes?]
  · rw [hcode]
    cases codes? rest <;> rfl
  · exact fun _ _ _ _ _ h => absurd h hu

theorem codes?_control {c : Char} (h : c.toNat < 0x20) (rest : List Char) :
    codes? ('\\' :: 'u' :: '0' :: '0' :: (c.toNat / 16).digitChar :: (c.toNat % 16).digitChar ::
      rest) = (codes? rest).map fun (codes, rest) => (c.toNat :: codes, rest) := by
  have hcode : codeOf? '0' '0' (c.toNat / 16).digitChar (c.toNat % 16).digitChar =
      some c.toNat := by
    have hzero : hexValue? '0' = some 0 := rfl
    simp only [codeOf?, hzero, hexValue?_digitChar _ (show c.toNat / 16 < 16 by omega),
      hexValue?_digitChar _ (show c.toNat % 16 < 16 by omega), Option.bind_eq_bind,
      Option.bind_some, Option.pure_def, Option.some.injEq]
    omega
  rw [codes?, hcode]
  cases codes? rest <;> rfl

theorem codes?_escapeChar (c : Char) (rest : List Char) :
    codes? (escapeChar c ++ rest) =
      (codes? rest).map fun (codes, rest) => (c.toNat :: codes, rest) := by
  have short {e c : Char} (hcode : escape? e = some c.toNat) (hu : e ≠ 'u') :=
    codes?_escape hcode hu rest
  unfold escapeChar
  split
  · next h =>
      subst h
      exact short rfl (by decide)
  · next hquote =>
      split
      · next h =>
          subst h
          exact short rfl (by decide)
      · next hslash =>
          iterate 5
            split
            · next h =>
                subst h
                exact short rfl (by decide)
          split
          · next hlow => exact codes?_control hlow rest
          · next hlow => exact codes?_plain hquote hslash hlow rest

theorem codes?_flatMap (cs rest : List Char) :
    codes? (cs.flatMap escapeChar ++ '"' :: rest) = some (cs.map Char.toNat, rest) := by
  induction cs with
  | nil => rfl
  | cons c cs ih =>
      rw [List.flatMap_cons, List.append_assoc, codes?_escapeChar, ih]
      rfl

theorem assemble?_map (cs : List Char) : assemble? (cs.map Char.toNat) = some cs := by
  induction cs with
  | nil => rfl
  | cons c cs ih =>
      have hvalid : c.toNat < 0xD800 ∨ 0xDFFF < c.toNat ∧ c.toNat < 0x110000 := c.valid
      have hhigh : ¬isHighSurrogate c.toNat = true := by
        simp only [isHighSurrogate, Bool.and_eq_true, decide_eq_true_eq]
        omega
      have hlow : ¬isLowSurrogate c.toNat = true := by
        simp only [isLowSurrogate, Bool.and_eq_true, decide_eq_true_eq]
        omega
      rw [List.map_cons, assemble?.eq_def]
      simp only [hhigh, hlow, ih, Bool.false_eq_true, ↓reduceIte, Option.map_some, Char.ofNat_toNat]

theorem string?_quote (s : String) (rest : List Char) :
    string? (s.toList.flatMap escapeChar ++ '"' :: rest) = some (some s, rest) := by
  rw [string?, codes?_flatMap, Option.map_some]
  dsimp only
  rw [assemble?_map, Option.map_some, String.ofList_toList]

/-! ## Values -/

mutual

/-- Whether the printer keeps all of a document: its numbers are spelled as the
grammar has them, and its texts can be read. -/
def Printable : Json → Prop
  | number l => l.Spelled
  | string s => s.isSome = true
  | array items => PrintableItems items
  | object members => PrintableMembers members
  | _ => True

def PrintableItems : List Json → Prop
  | [] => True
  | item :: items => Printable item ∧ PrintableItems items

def PrintableMembers : List (Option String × Json) → Prop
  | [] => True
  | (name, value) :: members => name.isSome = true ∧ Printable value ∧ PrintableMembers members

end

theorem ends_blanks {blanks rest : List Char} (h : ∀ c ∈ blanks, isSpace c = true)
    (hrest : Ends rest) : Ends (blanks ++ rest) := by
  cases blanks with
  | nil => exact hrest
  | cons blank blanks =>
      intro c hc
      cases Option.some.inj hc
      have hblank := h blank List.mem_cons_self
      simp only [isSpace, Bool.or_eq_true, beq_iff_eq] at hblank
      rcases hblank with ((rfl | rfl) | rfl) | rfl <;> decide

theorem ends_mark {c : Char} (h : c = ',' ∨ c = ']' ∨ c = '\x7d') (rest : List Char) :
    Ends (c :: rest) := by
  intro d hd
  cases Option.some.inj hd
  rcases h with rfl | rfl | rfl <;> decide

section

variable (s : Spacing) (level : Nat)

theorem ends_writeItems (items : List Json) (rest : List Char) :
    Ends (writeItems s level items ++ rest) := by
  cases items with
  | nil =>
      rw [writeItems, List.append_assoc]
      exact ends_blanks (s.before_blank level) (ends_mark (.inr (.inl rfl)) _)
  | cons item items => exact ends_mark (.inl rfl) _

theorem ends_writeMembers (members : List (Option String × Json)) (rest : List Char) :
    Ends (writeMembers s level members ++ rest) := by
  cases members with
  | nil =>
      rw [writeMembers, List.append_assoc]
      exact ends_blanks (s.before_blank level) (ends_mark (.inr (.inr rfl)) _)
  | cons m members => exact ends_mark (.inl rfl) _

end

def Numeric (c : Char) : Prop := c = '-' ∨ c.isDigit = true

theorem Numeric.ne {c d : Char} (h : Numeric c) (hminus : d ≠ '-') (hdigit : d.isDigit = false) :
    c ≠ d := by
  rintro rfl
  rcases h with rfl | h
  · exact hminus rfl
  · rw [hdigit] at h
    cases h

theorem Numeric.isSpace {c : Char} (h : Numeric c) : isSpace c = false := by
  simp only [Json.isSpace, Bool.or_eq_false_iff, beq_eq_false_iff_ne]
  exact ⟨⟨⟨h.ne (by decide) rfl, h.ne (by decide) rfl⟩, h.ne (by decide) rfl⟩,
    h.ne (by decide) rfl⟩

theorem head_text {l : Decimal.Literal} (h : l.Spelled) (rest : List Char) :
    ∃ c cs, l.text ++ rest = c :: cs ∧ Numeric c := by
  rw [text_eq]
  cases l.negative with
  | true => exact ⟨'-', _, rfl, .inl rfl⟩
  | false =>
      obtain ⟨d, ds, hds⟩ := List.exists_cons_of_ne_nil h.whole_ne_nil
      refine ⟨d, ds ++ _, by rw [hds]; rfl, .inr (h.whole_digits d ?_)⟩
      rw [hds]
      exact List.mem_cons_self

theorem value?_number {l : Decimal.Literal} (h : l.Spelled) (fuel : Nat) {rest : List Char}
    (hrest : Ends rest) : value? (fuel + 1) (l.text ++ rest) = some (number l, rest) := by
  have hnumber := number?_text h hrest
  obtain ⟨c, cs, hcs, hc⟩ := head_text h rest
  rw [hcs] at hnumber ⊢
  rw [value?, skipSpace_of_head hc.isSpace]
  split
  · next h => cases h
  · next h => exact absurd (List.cons.inj h).1 (hc.ne (by decide) rfl)
  · next h => exact absurd (List.cons.inj h).1 (hc.ne (by decide) rfl)
  · next h => exact absurd (List.cons.inj h).1 (hc.ne (by decide) rfl)
  · next h => exact absurd (List.cons.inj h).1 (hc.ne (by decide) rfl)
  · next h => exact absurd (List.cons.inj h).1 (hc.ne (by decide) rfl)
  · next h => exact absurd (List.cons.inj h).1 (hc.ne (by decide) rfl)
  · rw [hnumber]
    rfl

theorem items?_blanks (fuel : Nat) {blanks : List Char} (h : ∀ c ∈ blanks, isSpace c = true)
    (rest : List Char) : items? fuel (blanks ++ rest) = items? fuel rest := by
  cases fuel with
  | zero => rw [items?, items?]
  | succ fuel => rw [items?, items?, value?_blanks fuel h]

theorem members?_blanks (fuel : Nat) {blanks : List Char} (h : ∀ c ∈ blanks, isSpace c = true)
    (rest : List Char) : members? fuel (blanks ++ rest) = members? fuel rest := by
  cases fuel with
  | zero => rw [members?, members?]
  | succ fuel => rw [members?, members?, skipSpace_append h]

/-- No written value is empty or starts with a blank or with the end of a list. -/
theorem head_write {j : Json} (h : Printable j) (s : Spacing) (level : Nat) :
    ∃ c cs, write s level j = c :: cs ∧ isSpace c = false ∧ c ≠ ']' := by
  cases j with
  | number l =>
      obtain ⟨c, cs, hcs, hc⟩ := head_text h []
      rw [List.append_nil] at hcs
      exact ⟨c, cs, hcs, hc.isSpace, hc.ne (by decide) rfl⟩
  | bool b => cases b <;> exact ⟨_, _, rfl, rfl, by decide⟩
  | array items => cases items <;> (rw [write]; exact ⟨_, _, rfl, rfl, by decide⟩)
  | object members =>
      cases members with
      | nil => exact ⟨_, _, rfl, rfl, by decide⟩
      | cons m members =>
          obtain ⟨name, value⟩ := m
          rw [write]
          exact ⟨_, _, rfl, rfl, by decide⟩
  | _ => exact ⟨_, _, rfl, rfl, by decide⟩

theorem quote_append (s : String) (rest : List Char) :
    quote (some s) ++ rest = '"' :: (s.toList.flatMap escapeChar ++ '"' :: rest) := by
  simp only [quote, Option.getD_some, List.cons_append, List.append_assoc, List.nil_append]

theorem value?_string (fuel : Nat) (s : String) (rest : List Char) :
    value? (fuel + 1) (quote (some s) ++ rest) = some (string (some s), rest) := by
  rw [quote_append, value?, skipSpace_of_head rfl]
  change (string? _).map _ = _
  rw [string?_quote]
  rfl

theorem value?_bracket {c : Char} {cs rest : List Char} (fuel : Nat)
    (hspace : skipSpace rest = c :: cs) (hc : c ≠ ']') :
    value? (fuel + 1) ('[' :: rest) =
      (items? fuel (c :: cs)).map fun (items, rest) => (array items, rest) := by
  rw [value?, skipSpace_of_head rfl]
  simp only [hspace]
  split
  · next h => exact absurd (List.cons.inj h).1 hc
  · rfl

theorem value?_brace {cs rest : List Char} (fuel : Nat) (hspace : skipSpace rest = '"' :: cs) :
    value? (fuel + 1) ('\x7b' :: rest) =
      (members? fuel ('"' :: cs)).map fun (members, rest) => (object members, rest) := by
  rw [value?, skipSpace_of_head rfl]
  simp only [hspace]
  rfl

section

variable {s : Spacing} {level fuel : Nat} {rest : List Char}

theorem value?_array {item : Json} {items : List Json} (hitem : Printable item)
    (hitems : items? fuel (write s (level + 1) item ++ (writeItems s level items ++ rest)) =
      some (item :: items, rest)) :
    value? (fuel + 1) (write s level (array (item :: items)) ++ rest) =
      some (array (item :: items), rest) := by
  obtain ⟨c, cs, hhead, hspace, hc⟩ := head_write hitem s (level + 1)
  have htext : write s level (array (item :: items)) ++ rest =
      '[' :: (s.before (level + 1) ++ (write s (level + 1) item ++
        (writeItems s level items ++ rest))) := by
    simp only [write, List.cons_append, List.append_assoc]
  have hskip : skipSpace (s.before (level + 1) ++ (write s (level + 1) item ++
      (writeItems s level items ++ rest))) = c :: (cs ++ (writeItems s level items ++ rest)) := by
    rw [skipSpace_append (s.before_blank _), hhead]
    exact skipSpace_of_head hspace _
  rw [htext, value?_bracket fuel hskip hc]
  rw [hhead] at hitems
  rw [← List.cons_append, hitems]
  rfl

theorem value?_object {name : String} {value : Json} {members : List (Option String × Json)}
    (hmembers : members? fuel (quote (some name) ++ ':' :: (s.afterColon ++
      (write s (level + 1) value ++ (writeMembers s level members ++ rest)))) =
      some ((some name, value) :: members, rest)) :
    value? (fuel + 1) (write s level (object ((some name, value) :: members)) ++ rest) =
      some (object ((some name, value) :: members), rest) := by
  have htext : write s level (object ((some name, value) :: members)) ++ rest =
      '\x7b' :: (s.before (level + 1) ++ (quote (some name) ++ ':' :: (s.afterColon ++
        (write s (level + 1) value ++ (writeMembers s level members ++ rest))))) := by
    simp only [write, List.cons_append, List.append_assoc]
  have hskip : skipSpace (s.before (level + 1) ++ (quote (some name) ++ ':' :: (s.afterColon ++
      (write s (level + 1) value ++ (writeMembers s level members ++ rest))))) =
      quote (some name) ++ ':' :: (s.afterColon ++
        (write s (level + 1) value ++ (writeMembers s level members ++ rest))) := by
    rw [skipSpace_append (s.before_blank _)]
    exact skipSpace_of_head rfl _
  rw [htext, value?_brace fuel hskip]
  change (members? fuel (quote (some name) ++ _)).map _ = _
  rw [hmembers]
  rfl

end

theorem items?_last {fuel : Nat} {cs after rest : List Char} {item : Json}
    (hitem : value? fuel cs = some (item, after)) (hafter : skipSpace after = ']' :: rest) :
    items? (fuel + 1) cs = some ([item], rest) := by
  rw [items?, hitem, Option.bind_eq_bind, Option.bind_some]
  dsimp only
  rw [hafter]
  rfl

theorem items?_next {fuel : Nat} {cs after rest : List Char} {item : Json}
    (hitem : value? fuel cs = some (item, after)) (hafter : skipSpace after = ',' :: rest) :
    items? (fuel + 1) cs = (items? fuel rest).map fun (items, rest) => (item :: items, rest) := by
  rw [items?, hitem, Option.bind_eq_bind, Option.bind_some]
  dsimp only
  rw [hafter]
  change (items? fuel rest).bind _ = _
  cases items? fuel rest <;> rfl

theorem skipSpace_quote (name : String) (rest : List Char) :
    skipSpace (quote (some name) ++ rest) =
      '"' :: (name.toList.flatMap escapeChar ++ '"' :: rest) := by
  rw [quote_append]
  exact skipSpace_of_head rfl _

theorem members?_last {fuel : Nat} {name : String} {text after rest : List Char} {value : Json}
    (hvalue : value? fuel text = some (value, after)) (hafter : skipSpace after = '\x7d' :: rest) :
    members? (fuel + 1) (quote (some name) ++ ':' :: text) = some ([(some name, value)], rest) := by
  rw [members?, skipSpace_quote]
  change (string? _).bind _ = _
  rw [string?_quote, Option.bind_some]
  change (value? fuel text).bind _ = _
  rw [hvalue, Option.bind_some]
  dsimp only
  rw [hafter]
  rfl

theorem members?_next {fuel : Nat} {name : String} {text after rest : List Char} {value : Json}
    (hvalue : value? fuel text = some (value, after)) (hafter : skipSpace after = ',' :: rest) :
    members? (fuel + 1) (quote (some name) ++ ':' :: text) =
      (members? fuel rest).map fun (members, rest) => ((some name, value) :: members, rest) := by
  rw [members?, skipSpace_quote]
  change (string? _).bind _ = _
  rw [string?_quote, Option.bind_some]
  change (value? fuel text).bind _ = _
  rw [hvalue, Option.bind_some]
  dsimp only
  rw [hafter]
  change (members? fuel rest).bind _ = _
  cases members? fuel rest <;> rfl

-- The fuel goes down with every level and every item; it only has to exceed the text.
mutual

theorem value?_write (s : Spacing) (j : Json) (level fuel : Nat) (rest : List Char)
    (hprintable : Printable j) (hrest : Ends rest) (hfuel : (write s level j).length < fuel) :
    value? fuel (write s level j ++ rest) = some (j, rest) := by
  obtain ⟨fuel, rfl⟩ := Nat.exists_eq_succ_of_ne_zero (Nat.ne_zero_of_lt hfuel)
  cases j with
  | null => rfl
  | bool b => cases b <;> rfl
  | number l => exact value?_number hprintable fuel hrest
  | string text =>
      obtain ⟨text, rfl⟩ := Option.isSome_iff_exists.mp hprintable
      exact value?_string fuel text rest
  | array items =>
      cases items with
      | nil => rfl
      | cons item items =>
          obtain ⟨hitem, hitems⟩ := hprintable
          apply value?_array hitem
          apply items?_write s item items level fuel rest hitem hitems
          simp only [write, List.length_append, List.length_cons] at hfuel ⊢
          omega
  | object members =>
      cases members with
      | nil => rfl
      | cons m members =>
          obtain ⟨name, value⟩ := m
          obtain ⟨hname, hvalue, hmembers⟩ := hprintable
          obtain ⟨name, rfl⟩ := Option.isSome_iff_exists.mp hname
          apply value?_object
          apply members?_write s name value members level fuel rest hvalue hmembers
          simp only [write, List.length_append, List.length_cons] at hfuel ⊢
          omega
termination_by fuel

theorem items?_write (s : Spacing) (item : Json) (items : List Json) (level fuel : Nat)
    (rest : List Char) (hitem : Printable item) (hitems : PrintableItems items)
    (hfuel : (write s (level + 1) item ++ writeItems s level items).length < fuel) :
    items? fuel (write s (level + 1) item ++ (writeItems s level items ++ rest)) =
      some (item :: items, rest) := by
  obtain ⟨fuel, rfl⟩ := Nat.exists_eq_succ_of_ne_zero (Nat.ne_zero_of_lt hfuel)
  have hvalue := value?_write s item (level + 1) fuel (writeItems s level items ++ rest) hitem
    (ends_writeItems s level items rest) (by
      rw [List.length_append] at hfuel
      cases items <;> simp [writeItems] at hfuel <;> omega)
  cases items with
  | nil =>
      apply items?_last hvalue
      rw [writeItems, List.append_assoc, skipSpace_append (s.before_blank _)]
      rfl
  | cons next items =>
      obtain ⟨hnext, hitems⟩ := hitems
      have hmore := items?_write s next items level fuel rest hnext hitems (by
        simp only [writeItems, List.length_append, List.length_cons] at hfuel ⊢
        omega)
      have htext : writeItems s level (next :: items) ++ rest =
          ',' :: (s.before (level + 1) ++ (write s (level + 1) next ++
            (writeItems s level items ++ rest))) := by
        simp only [writeItems, List.cons_append, List.append_assoc]
      rw [items?_next hvalue (by rw [htext]; exact skipSpace_of_head rfl _),
        items?_blanks fuel (s.before_blank _), hmore]
      rfl
termination_by fuel

theorem members?_write (s : Spacing) (name : String) (value : Json)
    (members : List (Option String × Json)) (level fuel : Nat) (rest : List Char)
    (hvalue : Printable value) (hmembers : PrintableMembers members)
    (hfuel : (quote (some name) ++ ':' :: (s.afterColon ++
      (write s (level + 1) value ++ writeMembers s level members))).length < fuel) :
    members? fuel (quote (some name) ++ ':' :: (s.afterColon ++
      (write s (level + 1) value ++ (writeMembers s level members ++ rest)))) =
      some ((some name, value) :: members, rest) := by
  obtain ⟨fuel, rfl⟩ := Nat.exists_eq_succ_of_ne_zero (Nat.ne_zero_of_lt hfuel)
  have hread := value?_write s value (level + 1) fuel (writeMembers s level members ++ rest) hvalue
    (ends_writeMembers s level members rest) (by
      simp only [List.length_append, List.length_cons] at hfuel
      omega)
  have hblank : value? fuel (s.afterColon ++ (write s (level + 1) value ++
      (writeMembers s level members ++ rest))) =
      some (value, writeMembers s level members ++ rest) := by
    rw [← hread]
    exact value?_blanks fuel s.afterColon_blank _
  cases members with
  | nil =>
      apply members?_last hblank
      rw [writeMembers, List.append_assoc, skipSpace_append (s.before_blank _)]
      rfl
  | cons m members =>
      obtain ⟨next, nextValue⟩ := m
      obtain ⟨hname, hnext, hmembers⟩ := hmembers
      obtain ⟨next, rfl⟩ := Option.isSome_iff_exists.mp hname
      have hmore := members?_write s next nextValue members level fuel rest hnext hmembers (by
        simp only [writeMembers, List.length_append, List.length_cons] at hfuel ⊢
        omega)
      have htext : writeMembers s level ((some next, nextValue) :: members) ++ rest =
          ',' :: (s.before (level + 1) ++ (quote (some next) ++ ':' :: (s.afterColon ++
            (write s (level + 1) nextValue ++ (writeMembers s level members ++ rest))))) := by
        simp only [writeMembers, List.cons_append, List.append_assoc]
      rw [members?_next hblank (by rw [htext]; exact skipSpace_of_head rfl _),
        members?_blanks fuel (s.before_blank _), hmore]
      rfl
termination_by fuel

end

theorem parse?_write (s : Spacing) {j : Json} (h : Printable j) :
    parse? (String.ofList (write s 0 j)) = some j := by
  have hvalue := value?_write s j 0 ((write s 0 j).length + 1) [] h nofun (Nat.lt_succ_self _)
  rw [List.append_nil] at hvalue
  rw [parse?, String.toList_ofList, parseChars?, hvalue]
  rfl

theorem parse?_pretty {j : Json} (h : Printable j) : parse? (String.ofList j.pretty) = some j :=
  parse?_write .lines h

theorem parse?_compact {j : Json} (h : Printable j) : parse? (String.ofList j.compact) = some j :=
  parse?_write .none h

end Json

end ScalableCongestion
