import ScalableCongestion.Settings.Sources

/-! Tables made of entries with plain keys, which name one part each: what the
table has under a name is laid together from the entries with that name, in their
order, and no other entry matters. -/
namespace ScalableCongestion

/-! ## Keys without points and brackets -/

def lowerChar (c : Char) : Char := if c = '\u212A' then 'k' else c.toLower

theorem toList_lowercase (s : String) : (lowercase s).toList = s.toList.map lowerChar :=
  String.toList_map

theorem toNat_lowerChar (c : Char) :
    (lowerChar c).toNat =
      if c = '\u212A' then 107
      else if 65 ≤ c.toNat ∧ c.toNat ≤ 90 then c.toNat + 32 else c.toNat := by
  unfold lowerChar Char.toLower
  split
  · rfl
  · have hbounds : c.val ≥ 'A'.val ∧ c.val ≤ 'Z'.val ↔ 65 ≤ c.toNat ∧ c.toNat ≤ 90 := by
      simp only [ge_iff_le, UInt32.le_iff_toNat_le]
      rfl
    by_cases hletter : 65 ≤ c.toNat ∧ c.toNat ≤ 90
    · rw [dif_pos (hbounds.mpr hletter), if_pos hletter]
      change (c.val.toNat + 32) % 4294967296 = c.val.toNat + 32
      change 65 ≤ c.val.toNat ∧ c.val.toNat ≤ 90 at hletter
      omega
    · rw [dif_neg fun h => hletter (hbounds.mp h), if_neg hletter]

theorem lowerChar_lowerChar (c : Char) : lowerChar (lowerChar c) = lowerChar c := by
  have hkelvin : lowerChar c ≠ '\u212A' := by
    intro h
    have hcode := toNat_lowerChar c
    rw [h] at hcode
    change 8490 = _ at hcode
    split at hcode
    · omega
    · next hother =>
        refine hother (Char.toNat_inj.mp ?_)
        change c.toNat = 8490
        split at hcode <;> omega
  apply Char.toNat_inj.mp
  rw [toNat_lowerChar (lowerChar c), if_neg hkelvin, toNat_lowerChar c]
  split
  · rfl
  · split
    · rw [if_neg (by omega)]
    · rfl

theorem lowercase_lowercase (s : String) : lowercase (lowercase s) = lowercase s := by
  apply String.toList_injective
  rw [toList_lowercase, toList_lowercase, List.map_map]
  exact List.map_congr_left fun c _ => lowerChar_lowerChar c

def IsPlain (key : String) : Prop := ∀ c ∈ key.toList, c ≠ '.' ∧ c ≠ '['

instance (key : String) : Decidable (IsPlain key) := List.decidableBAll _ key.toList

theorem IsPlain.lowercase {key : String} (h : IsPlain key) : IsPlain (lowercase key) := by
  intro c hc
  rw [toList_lowercase] at hc
  obtain ⟨before, hbefore, rfl⟩ := List.mem_map.mp hc
  obtain ⟨hpoint, hbracket⟩ := h before hbefore
  have hcode := toNat_lowerChar before
  have keeps {other : Char} (hother : before ≠ other) (hnat : other.toNat = 46 ∨ other.toNat = 91) :
      lowerChar before ≠ other := by
    rintro rfl
    apply hother
    apply Char.toNat_inj.mp
    split at hcode
    · omega
    · split at hcode <;> omega
  exact ⟨keeps hpoint (.inl rfl), keeps hbracket (.inr rfl)⟩

theorem Place.ofKey_plain {key : String} (h : IsPlain key) : Place.ofKey key = [.part key] := by
  dsimp only [Place.ofKey]
  rw [List.length_cons, Place.spelled?]
  by_cases hname : (key.toList.takeWhile Place.isNameChar).isEmpty
  · rw [if_pos hname, Option.getD_none]
  · rw [if_neg hname]
    cases hrest : key.toList.dropWhile Place.isNameChar with
    | nil =>
        have hall := List.takeWhile_append_dropWhile (p := Place.isNameChar) (l := key.toList)
        rw [hrest, List.append_nil] at hall
        rw [hall, String.ofList_toList, Place.spelled?]
        rfl
    | cons c rest =>
        obtain ⟨hpoint, hbracket⟩ := h c ((List.dropWhile_sublist _).subset
          (by rw [hrest]; exact List.mem_cons_self))
        rw [Place.spelled?]
        · rfl
        · exact List.cons_ne_nil c rest
        · exact fun _ h => hpoint (List.cons.inj h).1
        · exact fun _ h => hbracket (List.cons.inj h).1

/-! ## The table of plain entries -/

namespace SettingValue

theorem lookup_withPair [BEq κ] [LawfulBEq κ] (pairs : List (κ × SettingValue)) (key name : κ)
    (value : SettingValue) :
    (withPair pairs key value).lookup name =
      if name == key then some value else pairs.lookup name := by
  unfold withPair
  rw [List.lookup_cons]
  cases hname : name == key with
  | true => rfl
  | false =>
      simp only [Bool.false_eq_true, ↓reduceIte]
      induction pairs with
      | nil => rfl
      | cons pair pairs ih =>
          rw [List.filter_cons]
          by_cases hpair : pair.1 = key
          · have hother : (name == pair.1) = false := by rw [hpair, hname]
            simp only [hpair, bne_self_eq_false, Bool.false_eq_true, ↓reduceIte, ih]
            rw [List.lookup_cons, hpair, hname]
          · simp only [bne_iff_ne, ne_eq, hpair, not_false_eq_true, ↓reduceIte]
            rw [List.lookup_cons, List.lookup_cons, ih]

end SettingValue

namespace Settings

open SettingValue

/-- What entries with plain keys make of the value under a name. -/
def layered (entries : List Entry) (name : String) (earlier : Option SettingValue) :
    Option SettingValue :=
  entries.foldl (fun earlier entry =>
    if name = lowercase entry.1 then some (entry.2.laidOver earlier) else earlier) earlier

theorem layered_append (entries others : List Entry) (name : String)
    (earlier : Option SettingValue) :
    layered (entries ++ others) name earlier = layered others name (layered entries name earlier) :=
  List.foldl_append

theorem layered_cons (entry : Entry) (entries : List Entry) (name : String)
    (earlier : Option SettingValue) :
    layered (entry :: entries) name earlier =
      layered entries name
        (if name = lowercase entry.1 then some (entry.2.laidOver earlier) else earlier) := rfl

theorem put?_plain {key : String} (hplain : IsPlain key) (value : SettingValue)
    (parts : List (String × SettingValue)) :
    value.put? (.ofKey (lowercase key)) (some (table parts)) =
      some (table (withPair parts (lowercase key)
        (value.laidOver (parts.lookup (lowercase key))))) := by
  rw [Place.ofKey_plain hplain.lowercase]
  rfl

/-- Plain entries always make a table, each part from its own entries. -/
theorem collect?_plain {entries : List Entry} (hplain : ∀ entry ∈ entries, IsPlain entry.1) :
    ∃ parts, collect? entries = some (table parts) ∧
      ∀ name, parts.lookup name = layered entries name none := by
  have onto (parts : List (String × SettingValue)) :
      ∃ more, entries.foldlM (fun whole (entry : Entry) =>
          entry.2.put? (.ofKey (lowercase entry.1)) (some whole)) (table parts) =
          some (table more) ∧
        ∀ name, more.lookup name = layered entries name (parts.lookup name) := by
    induction entries generalizing parts with
    | nil => exact ⟨parts, rfl, fun _ => rfl⟩
    | cons entry entries ih =>
        obtain ⟨hentry, hentries⟩ := List.forall_mem_cons.mp hplain
        obtain ⟨more, hmore, hlookup⟩ := ih hentries (withPair parts (lowercase entry.1)
          (entry.2.laidOver (parts.lookup (lowercase entry.1))))
        refine ⟨more, ?_, ?_⟩
        · rw [List.foldlM_cons, put?_plain hentry]
          exact hmore
        · intro name
          rw [hlookup, lookup_withPair, layered_cons]
          by_cases hname : name = lowercase entry.1
          · rw [hname, beq_self_eq_true, if_pos rfl, if_pos rfl]
          · rw [if_neg hname, if_neg (by simpa using hname)]
  exact onto []

end Settings

end ScalableCongestion
