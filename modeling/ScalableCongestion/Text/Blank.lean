/-! Blank characters, and text without the blanks around it. -/
namespace ScalableCongestion.Text

/-- The characters with the Unicode property White_Space. -/
def isBlank (c : Char) : Bool :=
  let n := c.toNat
  (0x09 ≤ n && n ≤ 0x0D) || n == 0x20 || n == 0x85 || n == 0xA0 || n == 0x1680 ||
    (0x2000 ≤ n && n ≤ 0x200A) || n == 0x2028 || n == 0x2029 || n == 0x202F ||
    n == 0x205F || n == 0x3000

def trimStart (cs : List Char) : List Char := cs.dropWhile isBlank

def trimEnd (cs : List Char) : List Char := (trimStart cs.reverse).reverse

def trim (cs : List Char) : List Char := trimEnd (trimStart cs)

def Blanks (cs : List Char) : Prop := ∀ c ∈ cs, isBlank c = true

instance (cs : List Char) : Decidable (Blanks cs) := List.decidableBAll _ cs

theorem trimStart_append {before : List Char} (h : Blanks before) (cs : List Char) :
    trimStart (before ++ cs) = trimStart cs :=
  List.dropWhile_append_of_pos h

theorem trimStart_cons {c : Char} (h : isBlank c = false) (cs : List Char) :
    trimStart (c :: cs) = c :: cs := by
  rw [trimStart, List.dropWhile_cons, h]
  rfl

theorem trimStart_of_not_blank {cs : List Char} (h : ∀ c ∈ cs, isBlank c = false)
    (hne : cs ≠ []) (after : List Char) : trimStart (cs ++ after) = cs ++ after := by
  cases cs with
  | nil => exact absurd rfl hne
  | cons c cs => exact trimStart_cons (h c List.mem_cons_self) _

theorem trim_append {before core after : List Char} (hbefore : Blanks before)
    (hcore : ∀ c ∈ core, isBlank c = false) (hafter : Blanks after) :
    trim (before ++ core ++ after) = core := by
  rw [trim, List.append_assoc, trimStart_append hbefore]
  by_cases hempty : core = []
  · have hnothing := trimStart_append hafter []
    rw [List.append_nil] at hnothing
    rw [hempty, List.nil_append, hnothing]
    rfl
  · have hcore' : ∀ c ∈ core.reverse, isBlank c = false := fun c hc =>
      hcore c (List.mem_reverse.mp hc)
    have hafter' : Blanks after.reverse := fun c hc => hafter c (List.mem_reverse.mp hc)
    have hkept := trimStart_of_not_blank hcore' (mt List.reverse_eq_nil_iff.mp hempty) []
    rw [List.append_nil] at hkept
    rw [trimStart_of_not_blank hcore hempty, trimEnd, List.reverse_append,
      trimStart_append hafter', hkept, List.reverse_reverse]

theorem exists_trim (cs : List Char) :
    ∃ before after, Blanks before ∧ Blanks after ∧ cs = before ++ trim cs ++ after := by
  have blanks (cs : List Char) : Blanks (cs.takeWhile isBlank) :=
    List.all_eq_true.mp List.all_takeWhile
  refine ⟨cs.takeWhile isBlank, ((trimStart cs).reverse.takeWhile isBlank).reverse, blanks cs,
    fun c hc => blanks _ c (List.mem_reverse.mp hc), ?_⟩
  have hend : (trimStart cs).reverse.takeWhile isBlank ++ trimStart (trimStart cs).reverse =
      (trimStart cs).reverse := List.takeWhile_append_dropWhile
  have hstart : cs.takeWhile isBlank ++ trimStart cs = cs := List.takeWhile_append_dropWhile
  rw [trim, trimEnd, List.append_assoc, ← List.reverse_append, hend, List.reverse_reverse, hstart]

end ScalableCongestion.Text
