import ScalableCongestion.Proofs.Json.Values
import ScalableCongestion.Proofs.SettingPrecedence

/-! Settings that are saved and read again, from their file with an environment or
from the text alone. Both ways give the same, and all but the two doubles is as it
was. The doubles may have changed, yet settings that are allowed stay so, and others
are refused. -/
namespace ScalableCongestion

namespace Settings

open SettingValue

/-! ## The document of settings -/

def savedMembers (s : Settings) : List (String × Json) :=
  [("algorithm", .text s.algorithm.name),
    ("gain", .ofFloat s.gain),
    ("initial_alpha", .ofFloat s.initialAlpha),
    ("use_ect0", .bool s.useEct0),
    ("segment_size", .natural s.segmentSize.toNat),
    ("initial_cwnd_segments", .natural s.initialSegments.toNat)]

theorem toJson_eq (s : Settings) : s.toJson = .record s.savedMembers := rfl

/-- What is read where settings were written: their doubles as they are reread, and
the other fields as they were. -/
structure Restored (s t : Settings) : Prop where
  algorithm : t.algorithm = s.algorithm
  gain : s.gain.isFinite = true ∧ Json.reread? s.gain = some t.gain
  initialAlpha : s.initialAlpha.isFinite = true ∧ Json.reread? s.initialAlpha = some t.initialAlpha
  useEct0 : t.useEct0 = s.useEct0
  segmentSize : t.segmentSize = s.segmentSize
  initialSegments : t.initialSegments = s.initialSegments

theorem isFinite_of_inUnit {x : Float} (h : inUnit x = true) : x.isFinite = true := by
  obtain ⟨q, hq, _⟩ := inUnit_iff.mp h
  exact isFinite_iff.mpr ⟨q, hq⟩

variable {s t : Settings}

theorem Restored.validate_iff (h : Restored s t) : t.validate = .ok () ↔ s.validate = .ok () := by
  have hunit {x y : Float} (hread : x.isFinite = true ∧ Json.reread? x = some y) :
      inUnit y = true ↔ inUnit x = true := by
    constructor
    · exact Json.inUnit_of_reread? hread.1 hread.2
    · intro hx
      obtain ⟨y', hy', hinside⟩ := Json.reread?_inUnit hx
      rw [hread.2] at hy'
      cases hy'
      exact hinside
  rw [validate_eq_ok_iff, validate_eq_ok_iff, hunit h.gain, hunit h.initialAlpha, h.segmentSize,
    h.initialSegments]

/-- There is no reading the infinities and NaN, and no losing another double. -/
theorem exists_restored_iff (s : Settings) :
    (∃ t, Restored s t) ↔ s.gain.isFinite = true ∧ s.initialAlpha.isFinite = true := by
  constructor
  · rintro ⟨t, h⟩
    exact ⟨h.gain.1, h.initialAlpha.1⟩
  · rintro ⟨hgain, halpha⟩
    obtain ⟨gain, hgain'⟩ := Json.exists_reread? hgain
    obtain ⟨alpha, halpha'⟩ := Json.exists_reread? halpha
    exact ⟨{ s with gain, initialAlpha := alpha }, rfl, ⟨hgain, hgain'⟩, ⟨halpha, halpha'⟩, rfl,
      rfl, rfl⟩

theorem exists_restored (h : s.validate = .ok ()) : ∃ t, Restored s t := by
  obtain ⟨hgain, halpha, _⟩ := (validate_eq_ok_iff s).mp h
  exact (exists_restored_iff s).mpr ⟨isFinite_of_inUnit hgain, isFinite_of_inUnit halpha⟩

theorem restored_self (hgain : s.gain.isFinite = true) (halpha : s.initialAlpha.isFinite = true)
    (hgain' : Json.Short s.gain) (halpha' : Json.Short s.initialAlpha) : Restored s s :=
  ⟨rfl, ⟨hgain, Json.reread?_short hgain hgain'⟩, ⟨halpha, Json.reread?_short halpha halpha'⟩, rfl,
    rfl, rfl⟩

/-! ## Reading the text -/

theorem printable_toJson (s : Settings) : Json.Printable s.toJson :=
  ⟨rfl, rfl, rfl, Json.printable_ofFloat _, rfl, Json.printable_ofFloat _, rfl, trivial, rfl,
    Json.spelled_natural _, rfl, Json.spelled_natural _, trivial⟩

theorem fields?_toJson (s : Settings) :
    s.toJson.fields? fieldNames =
      some [some (.text s.algorithm.name), some (.ofFloat s.gain), some (.ofFloat s.initialAlpha),
        some (.bool s.useEct0), some (.natural s.segmentSize.toNat),
        some (.natural s.initialSegments.toNat)] := by
  rfl

theorem ofName?_name (a : Algorithm) : Algorithm.ofName? a.name = some a := by
  cases a <;> decide

theorem ofJson?_toJson : ofJson? s.toJson = some t ↔ Restored s t := by
  have halgorithm : Json.choice? Algorithm.ofName? (.text s.algorithm.name) = some s.algorithm :=
    ofName?_name s.algorithm
  unfold ofJson?
  rw [fields?_toJson]
  simp only [Json.optional, halgorithm, Json.bool?, Json.count?_natural, Option.bind_eq_bind,
    Option.bind_some, Option.bind_eq_some_iff, Json.float?_ofFloat, Option.pure_def,
    Option.some.injEq]
  constructor
  · rintro ⟨gain, hgain, alpha, halpha, rfl⟩
    exact ⟨rfl, hgain, halpha, rfl, rfl, rfl⟩
  · obtain ⟨algorithm, gain, alpha, useEct0, segmentSize, initialSegments⟩ := t
    rintro ⟨rfl, hgain, halpha, rfl, rfl, rfl⟩
    exact ⟨gain, hgain, alpha, halpha, rfl⟩

theorem parse?_savedText : parse? s.savedText = some t ↔ Restored s t := by
  rw [parse?, savedText, Json.parse?_pretty (printable_toJson s), Option.bind_some]
  exact ofJson?_toJson

/-! ## Loading the file -/

/-- No variable is one for settings. -/
def Unset (environment : List (String × String)) : Prop :=
  ∀ v ∈ environment, ¬environmentStart <+: (lowercase v.1).toList

instance (environment : List (String × String)) : Decidable (Unset environment) :=
  inferInstanceAs (Decidable (∀ v ∈ _, ¬_))

variable {environment : List (String × String)} {field : String} {value : Json} {x y : Float}

theorem lowercase_fieldNames : ∀ name ∈ fieldNames, lowercase name = name := by decide +kernel

theorem plain_fieldNames : ∀ name ∈ fieldNames, IsPlain name := by decide +kernel

theorem fst_savedMembers (s : Settings) : s.savedMembers.map Prod.fst = fieldNames := rfl

theorem fieldName_of_mem {m : String × Json} (h : m ∈ s.savedMembers) : m.1 ∈ fieldNames :=
  fst_savedMembers s ▸ List.mem_map_of_mem h

theorem lastValue?_of_mem {pairs : List (String × α)} {name : String} {value : α}
    (hnames : (pairs.map Prod.fst).Nodup) (hlower : ∀ pair ∈ pairs, lowercase pair.1 = pair.1)
    (h : (name, value) ∈ pairs) : lastValue? pairs name = some value := by
  induction pairs with
  | nil => exact absurd h List.not_mem_nil
  | cons pair pairs ih =>
      obtain ⟨hnew, hlaterNames⟩ := List.nodup_cons.mp hnames
      obtain ⟨hpair, hlaterLower⟩ := List.forall_mem_cons.mp hlower
      rw [lastValue?_cons]
      rcases List.mem_cons.mp h with rfl | hlater
      -- nothing later has the name, so the last value is the first
      · have hnone : lastValue? pairs name = none := by
          rw [lastValue?_eq_none_iff]
          intro other hother hname
          rw [hlaterLower other hother] at hname
          exact hnew (List.mem_map.mpr ⟨other, hother, hname.symm⟩)
        rw [hnone, Option.none_or, if_pos hpair.symm]
      · rw [ih hlaterNames hlaterLower hlater, Option.some_or]

theorem winning_saved (hunset : Unset environment) (h : (field, value) ∈ s.savedMembers) :
    winning s.savedMembers environment field = some ((ofJson value).laidOver none) := by
  have hvariable : lastValue? environment ("prague_" ++ field) = none := by
    rw [lastValue?_eq_none_iff]
    intro v hv hname
    apply hunset v hv
    rw [← hname, String.toList_append]
    exact List.prefix_append _ _
  have hmember : lastValue? s.savedMembers field = some value :=
    lastValue?_of_mem (by rw [fst_savedMembers]; decide)
      (fun m hm => lowercase_fieldNames _ (fieldName_of_mem hm)) h
  rw [winning, hvariable, hmember]
  rfl

theorem toAlgorithm?_name (a : Algorithm) :
    ((ofJson (.text a.name)).laidOver none).toAlgorithm? = some a := by
  cases a <;> decide +kernel

theorem toBool?_bool (b : Bool) : ((ofJson (.bool b)).laidOver none).toBool? = some b := rfl

theorem toFloat?_ofFloat : ((ofJson (.ofFloat x)).laidOver none).toFloat? = some y ↔
    x.isFinite = true ∧ Json.reread? x = some y := by
  unfold Json.ofFloat
  split
  · next hfinite =>
      rw [ofJson, Json.numberOf?_lay hfinite, and_iff_right hfinite]
      cases Json.reread? x with
      | none => exact iff_of_false nofun nofun
      | some z => exact Iff.rfl
  · next hinfinite => exact iff_of_false nofun fun h => hinfinite h.1

theorem toCount?_natural (n : UInt32) :
    ((ofJson (.natural n.toNat)).laidOver none).toCount? = some n := by
  have hlt := n.toNat_lt
  rw [Json.natural, ofJson, Json.numberOf?_natural (Json.toNat_lt_significandBound n)]
  change ((if n.toNat < UInt64.size / 2 then SettingValue.integer n.toNat
    else .real (Float.ofNat n.toNat)).laidOver none).toCount? = some n
  rw [if_pos (hlt.trans (by decide))]
  change countOfInt? n.toNat = some n
  rw [countOfInt?, if_pos ⟨Int.natCast_nonneg _, by exact_mod_cast hlt⟩, Int.toNat_natCast,
    UInt32.ofNat_toNat]

theorem converted_saved {convert : SettingValue → Option α} {missing found : α}
    (hunset : Unset environment) (h : (field, value) ∈ s.savedMembers) :
    Converted (winning s.savedMembers environment field) convert missing found ↔
      convert ((ofJson value).laidOver none) = some found := by
  rw [Converted, winning_saved hunset h]
  rfl

theorem won_saved (hunset : Unset environment) :
    Won (winning s.savedMembers environment) t ↔ Restored s t := by
  have hexact {α : Type} {field : String} {value : Json} {convert : SettingValue → Option α}
      {missing kept found : α} (h : (field, value) ∈ s.savedMembers)
      (hkept : convert ((ofJson value).laidOver none) = some kept) :
      Converted (winning s.savedMembers environment field) convert missing found ↔
        found = kept := by
    rw [converted_saved hunset h, hkept, Option.some.injEq, eq_comm]
  have halgorithm : Converted (winning s.savedMembers environment "algorithm") toAlgorithm?
      default.algorithm t.algorithm ↔ t.algorithm = s.algorithm :=
    hexact (by simp [savedMembers]) (toAlgorithm?_name _)
  have hgain : Converted (winning s.savedMembers environment "gain") toFloat? default.gain t.gain ↔
      s.gain.isFinite = true ∧ Json.reread? s.gain = some t.gain :=
    (converted_saved hunset (by simp [savedMembers])).trans toFloat?_ofFloat
  have halpha : Converted (winning s.savedMembers environment "initial_alpha") toFloat?
      default.initialAlpha t.initialAlpha ↔
      s.initialAlpha.isFinite = true ∧ Json.reread? s.initialAlpha = some t.initialAlpha :=
    (converted_saved hunset (by simp [savedMembers])).trans toFloat?_ofFloat
  have hect0 : Converted (winning s.savedMembers environment "use_ect0") toBool? default.useEct0
      t.useEct0 ↔ t.useEct0 = s.useEct0 :=
    hexact (by simp [savedMembers]) (toBool?_bool _)
  have hsize : Converted (winning s.savedMembers environment "segment_size") toCount?
      default.segmentSize t.segmentSize ↔ t.segmentSize = s.segmentSize :=
    hexact (by simp [savedMembers]) (toCount?_natural _)
  have hsegments : Converted (winning s.savedMembers environment "initial_cwnd_segments") toCount?
      default.initialSegments t.initialSegments ↔ t.initialSegments = s.initialSegments :=
    hexact (by simp [savedMembers]) (toCount?_natural _)
  constructor
  · intro h
    exact ⟨halgorithm.mp h.algorithm, hgain.mp h.gain, halpha.mp h.initialAlpha,
      hect0.mp h.useEct0, hsize.mp h.segmentSize, hsegments.mp h.initialSegments⟩
  · intro h
    exact ⟨halgorithm.mpr h.algorithm, hgain.mpr h.gain, halpha.mpr h.initialAlpha,
      hect0.mpr h.useEct0, hsize.mpr h.segmentSize, hsegments.mpr h.initialSegments⟩

theorem depth_saved (s : Settings) : (Json.record s.savedMembers).depth = 1 := by
  change max 0 (max (Json.ofFloat s.gain).depth (max (Json.ofFloat s.initialAlpha).depth 0)) + 1 = 1
  rw [Json.depth_ofFloat, Json.depth_ofFloat]
  rfl

theorem storable_saved (s : Settings) : (Json.record s.savedMembers).storable 0 = true := by
  have hdepth : decide ((Json.record s.savedMembers).depth + 0 ≤ Json.depthLimit) = true := by
    rw [depth_saved]
    rfl
  rw [Json.storable, hdepth, Bool.and_true]
  simp only [savedMembers, Json.record, List.map_cons, List.map_nil, Json.readable,
    Json.readableMembers, Json.readable_natural, Json.readable_ofFloat, Json.text,
    Option.isSome_some, Bool.true_and]

theorem plainVariables_of_unset (hunset : Unset environment) : PlainVariables environment :=
  fun v hv hstart => absurd hstart (hunset v hv)

variable {files : Files} {path : String}

theorem withoutMark_savedText (s : Settings) : withoutMark s.savedText = s.savedText := by
  have hbrace : s.savedText.toList.head? = some '\x7b' := by
    rw [savedText, String.toList_ofList]
    rfl
  apply withoutMark_eq_self
  rw [hbrace]
  decide

theorem parse?_toJson (s : Settings) :
    Json.parse? (withoutMark s.savedText) = some (.record s.savedMembers) := by
  rw [withoutMark_savedText, savedText, Json.parse?_pretty (printable_toJson s), toJson_eq]

theorem offers_saved (hread : files.find? path = some (json, s.savedText)) :
    Offers files path s.savedMembers := by
  refine ⟨⟨_, hread, parse?_toJson s⟩, storable_saved s, ?_, ?_⟩
  · intro m hm
    exact plain_fieldNames _ (fieldName_of_mem hm)
  · intro m hm n hn hname
    rwa [lowercase_fieldNames _ (fieldName_of_mem hm),
      lowercase_fieldNames _ (fieldName_of_mem hn)] at hname

theorem load?_savedText (hread : files.find? path = some (json, s.savedText))
    (hunset : Unset environment) :
    (∀ t, load? files path environment = some (.ok t) ↔ Restored s t ∧ t.validate = .ok ()) ∧
      ((¬∃ t, Restored s t ∧ t.validate = .ok ()) →
        ∃ cause, load? files path environment = some (.error (.settings cause))) := by
  obtain ⟨whole, hload, hwhole⟩ :=
    load?_eq_resolve (offers_saved hread) (plainVariables_of_unset hunset)
  have hwon (t : Settings) : Won (under whole) t ↔ Restored s t := by
    rw [funext hwhole]
    exact won_saved hunset
  simp only [← hwon]
  rw [hload]
  constructor
  · intro t
    rw [Option.some.injEq, resolve_eq_ok_iff]
  · intro hnone
    obtain ⟨cause, hcause⟩ := resolve_eq_error hnone
    exact ⟨cause, congrArg some hcause⟩

theorem load?_of_valid (hread : files.find? path = some (json, s.savedText))
    (hunset : Unset environment) (hvalid : s.validate = .ok ()) :
    ∃ t, load? files path environment = some (.ok t) ∧ parse? s.savedText = some t := by
  obtain ⟨t, hrestored⟩ := exists_restored hvalid
  obtain ⟨hload, _⟩ := load?_savedText hread hunset
  exact ⟨t, (hload t).mpr ⟨hrestored, hrestored.validate_iff.mpr hvalid⟩,
    parse?_savedText.mpr hrestored⟩

theorem load?_of_not_valid (hread : files.find? path = some (json, s.savedText))
    (hunset : Unset environment) (hinvalid : s.validate ≠ .ok ()) :
    ∃ cause, load? files path environment = some (.error (.settings cause)) := by
  obtain ⟨_, herror⟩ := load?_savedText hread hunset
  apply herror
  rintro ⟨t, hrestored, hvalid⟩
  exact hinvalid (hrestored.validate_iff.mp hvalid)

/-! ## The file -/

theorem save_eq (s : Settings) (d : Directory) (others : List Format) {path : String}
    (hextension : hasExtension path extension = true)
    (hplace : (filePlace? path).isSome = true) :
    ∃ saved, s.save d path = .ok saved ∧
      Files.find? ⟨saved.read?, others⟩ path = some (json, s.savedText) := by
  obtain ⟨place, hplace⟩ := Option.isSome_iff_exists.mp hplace
  refine ⟨⟨(place, s.savedText) :: d.files⟩, ?_, ?_⟩
  · rw [save, Directory.write?, hplace]
    rfl
  · have hfound : Directory.read? ⟨(place, s.savedText) :: d.files⟩ path = some s.savedText := by
      rw [Directory.read?, hplace, Option.bind_some, List.lookup_cons_self]
    exact Files.find?_json hfound hextension

/-- Saved settings are loaded exactly if they are allowed, and their text is read
exactly if their doubles are finite. Both give the same: the doubles near what they
were, those of few digits unmoved, and all other fields as they were. -/
theorem load?_save (s : Settings) (d : Directory) (others : List Format) {path : String}
    {environment : List (String × String)} (hextension : hasExtension path extension = true)
    (hplace : (filePlace? path).isSome = true) (hunset : Unset environment) :
    ∃ saved, s.save d path = .ok saved ∧
      (s.validate = .ok () →
        ∃ t, load? ⟨saved.read?, others⟩ path environment = some (.ok t) ∧
          parse? s.savedText = some t) ∧
      (s.validate ≠ .ok () →
        ∃ cause, load? ⟨saved.read?, others⟩ path environment = some (.error (.settings cause))) ∧
      ((∃ t, parse? s.savedText = some t) ↔
        s.gain.isFinite = true ∧ s.initialAlpha.isFinite = true) ∧
      (∀ t, parse? s.savedText = some t → Restored s t ∧ Json.Near s.gain t.gain ∧
        Json.Near s.initialAlpha t.initialAlpha ∧ (t.validate = .ok () ↔ s.validate = .ok ())) ∧
      (s.gain.isFinite = true → s.initialAlpha.isFinite = true → Json.Short s.gain →
        Json.Short s.initialAlpha → parse? s.savedText = some s) := by
  obtain ⟨saved, hsave, hread⟩ := save_eq s d others hextension hplace
  refine ⟨saved, hsave, load?_of_valid hread hunset, load?_of_not_valid hread hunset, ?_, ?_, ?_⟩
  · simp only [parse?_savedText]
    exact exists_restored_iff s
  · intro t ht
    have hrestored := parse?_savedText.mp ht
    exact ⟨hrestored, Json.near_of_reread? hrestored.gain.1 hrestored.gain.2,
      Json.near_of_reread? hrestored.initialAlpha.1 hrestored.initialAlpha.2,
      hrestored.validate_iff⟩
  · intro hgain halpha hgain' halpha'
    exact parse?_savedText.mpr (restored_self hgain halpha hgain' halpha')

def quarterGain : Settings := { default with gain := 0.25 }

theorem load?_save_quarterGain :
    hasExtension "./config.json" extension = true ∧ (filePlace? "./config.json").isSome = true ∧
      Unset [("HOME", "/")] ∧ ∃ saved, quarterGain.save .empty "./config.json" = .ok saved ∧
        load? ⟨saved.read?, []⟩ "./config.json" [("HOME", "/")] = some (.ok quarterGain) := by
  have hextension : hasExtension "./config.json" extension = true := by decide +kernel
  have hplace : (filePlace? "./config.json").isSome = true := by decide +kernel
  have hunset : Unset [("HOME", "/")] := by decide +kernel
  obtain ⟨saved, hsave, hvalid, _, _, _, hshort⟩ :=
    load?_save quarterGain .empty [] hextension hplace hunset
  have hsame : parse? quarterGain.savedText = some quarterGain :=
    hshort (by decide +kernel) (by decide +kernel) (by decide +kernel) (by decide +kernel)
  obtain ⟨t, hload, hparse⟩ := hvalid (by rw [validate_eq_ok_iff]; decide +kernel)
  cases Option.some.inj (hsame.symm.trans hparse)
  exact ⟨hextension, hplace, hunset, saved, hsave, hload⟩

/-- Sixteen digits that are read as the double next to the one they were written for. -/
def awkward : Settings :=
  { default with gain := 0.00001, initialAlpha := Float.ofBits 0x3ee4f8b588e368f0 }

theorem not_restored_awkward : ¬Restored awkward awkward := by
  have hmoved : Json.reread? awkward.initialAlpha ≠ some awkward.initialAlpha := by decide +kernel
  exact fun h => hmoved h.initialAlpha.2

theorem load?_save_awkward :
    awkward.validate = .ok () ∧ awkward.gain.isFinite = true ∧
      awkward.initialAlpha.isFinite = true ∧ Unset [] ∧
      ∃ saved, awkward.save .empty "config.json" = .ok saved ∧
        load? ⟨saved.read?, []⟩ "config.json" [] ≠ some (.ok awkward) ∧
        parse? awkward.savedText ≠ some awkward := by
  have hunset : Unset [] := by decide
  have hextension : hasExtension "config.json" extension = true := by decide +kernel
  obtain ⟨saved, hsave, hread⟩ := save_eq awkward .empty [] hextension (by decide +kernel)
  obtain ⟨hload, _⟩ := load?_savedText hread hunset
  refine ⟨by rw [validate_eq_ok_iff]; decide +kernel, by decide +kernel, by decide +kernel, hunset,
    saved, hsave, ?_, ?_⟩
  · intro h
    exact not_restored_awkward ((hload _).mp h).1
  · intro h
    exact not_restored_awkward (parse?_savedText.mp h)

end Settings

end ScalableCongestion
