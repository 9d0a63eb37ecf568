import Mathlib
import ScalableCongestion.Proofs.Session.Start
import ScalableCongestion.Proofs.Settings.PlainKeys

/-! Where the value of a setting comes from: the environment, then the file, then
the default. Each field is decided by itself, and a value that does not win is
never looked at. -/
namespace ScalableCongestion

namespace Settings

open SettingValue

/-! ## The value that wins -/

/-- The value that comes last under a name, whatever its case. -/
def lastValue? (pairs : List (String × α)) (name : String) : Option α :=
  (pairs.reverse.find? fun pair => name == lowercase pair.1).map (·.2)

/-- The value that wins for a field: what a variable says, or what the file gives.
In a value with parts, the names of the parts lose their case. -/
def winning (members : List (String × Json)) (environment : List (String × String))
    (field : String) : Option SettingValue :=
  ((lastValue? environment ("prague_" ++ field)).map ofText).or
    ((lastValue? members field).map fun value => (ofJson value).laidOver none)

def Converted (value : Option SettingValue) (convert : SettingValue → Option α)
    (missing field : α) : Prop :=
  value.elim (some missing) convert = some field

structure Won (value : String → Option SettingValue) (s : Settings) : Prop where
  algorithm : Converted (value "algorithm") toAlgorithm? default.algorithm s.algorithm
  gain : Converted (value "gain") toFloat? default.gain s.gain
  initialAlpha : Converted (value "initial_alpha") toFloat? default.initialAlpha s.initialAlpha
  useEct0 : Converted (value "use_ect0") toBool? default.useEct0 s.useEct0
  segmentSize : Converted (value "segment_size") toCount? default.segmentSize s.segmentSize
  initialSegments :
    Converted (value "initial_cwnd_segments") toCount? default.initialSegments s.initialSegments

/-- The file for a path is a JSON object with these members, of which none is out
of range. Its keys name one part each and differ in more than their case. -/
structure Offers (files : Files) (path : String) (members : List (String × Json)) : Prop where
  parsed : ∃ text, files.find? path = some (json, text) ∧
    Json.parse? (withoutMark text) = some (.record members)
  storable : (Json.record members).storable 0 = true
  plain : ∀ m ∈ members, IsPlain m.1
  distinct : ∀ m ∈ members, ∀ n ∈ members, lowercase m.1 = lowercase n.1 → m.1 = n.1

/-- Variables for settings name one part each. -/
def PlainVariables (environment : List (String × String)) : Prop :=
  ∀ v ∈ environment, environmentStart <+: (lowercase v.1).toList → IsPlain v.1

instance (environment : List (String × String)) : Decidable (PlainVariables environment) :=
  inferInstanceAs (Decidable (∀ v ∈ _, _ → _))

variable {members : List (String × Json)} {environment : List (String × String)} {name : String}

theorem lastValue?_cons (pair : String × α) (pairs : List (String × α)) (name : String) :
    lastValue? (pair :: pairs) name =
      (lastValue? pairs name).or (if name = lowercase pair.1 then some pair.2 else none) := by
  unfold lastValue?
  rw [List.reverse_cons, List.find?_append]
  cases pairs.reverse.find? fun pair => name == lowercase pair.1 with
  | some found => rfl
  | none =>
      rw [Option.none_or, List.find?_singleton, Option.map_none, Option.none_or]
      by_cases hname : name = lowercase pair.1
      · rw [if_pos hname, if_pos (beq_iff_eq.mpr hname)]
        rfl
      · rw [if_neg hname, if_neg (mt beq_iff_eq.mp hname)]
        rfl

theorem lastValue?_eq_none_iff {pairs : List (String × α)} :
    lastValue? pairs name = none ↔ ∀ pair ∈ pairs, name ≠ lowercase pair.1 := by
  unfold lastValue?
  rw [Option.map_eq_none_iff, List.find?_eq_none]
  simp only [List.mem_reverse, beq_iff_eq, ne_eq]

/-! ## The entries of the file -/

def named (members : List (String × Json)) : List (Option String × Json) :=
  members.map fun (name, value) => (some name, value)

theorem ofMembers_cons (m : String × Json) (members : List (String × Json)) :
    ofMembers (named (m :: members)) =
      if (ofMembers (named members)).any (·.1 == m.1) then ofMembers (named members)
      else (m.1, ofJson m.2) :: ofMembers (named members) := rfl

theorem any_ofMembers (members : List (String × Json)) (name : String) :
    (ofMembers (named members)).any (·.1 == name) = members.any (·.1 == name) := by
  induction members with
  | nil => rfl
  | cons m members ih =>
      rw [ofMembers_cons, List.any_cons, ← ih]
      by_cases hthere : (ofMembers (named members)).any (·.1 == m.1) = true
      · rw [if_pos hthere]
        by_cases hname : m.1 = name
        · rw [← hname, hthere, Bool.or_true]
        · rw [beq_eq_false_iff_ne.mpr hname, Bool.false_or]
      · rw [if_neg hthere, List.any_cons]

theorem mem_of_mem_ofMembers {entry : Entry} (h : entry ∈ ofMembers (named members)) :
    ∃ m ∈ members, m.1 = entry.1 := by
  have hany : (ofMembers (named members)).any (·.1 == entry.1) = true :=
    List.any_eq_true.mpr ⟨entry, h, beq_self_eq_true _⟩
  rw [any_ofMembers] at hany
  obtain ⟨m, hm, hname⟩ := List.any_eq_true.mp hany
  exact ⟨m, hm, beq_iff_eq.mp hname⟩

theorem layered_other {entries : List Entry} (h : ∀ entry ∈ entries, name ≠ lowercase entry.1)
    (earlier : Option SettingValue) : layered entries name earlier = earlier := by
  induction entries with
  | nil => rfl
  | cons entry entries ih =>
      obtain ⟨hentry, hentries⟩ := List.forall_mem_cons.mp h
      rw [layered_cons, if_neg hentry, ih hentries]

theorem layered_ofMembers
    (hdistinct : ∀ m ∈ members, ∀ n ∈ members, lowercase m.1 = lowercase n.1 → m.1 = n.1) :
    layered (ofMembers (named members)) name none =
      (lastValue? members name).map fun value => (ofJson value).laidOver none := by
  induction members with
  | nil => rfl
  | cons m members ih =>
      have hrest := ih fun a ha b hb =>
        hdistinct a (List.mem_cons_of_mem _ ha) b (List.mem_cons_of_mem _ hb)
      -- a later member can have the same name in another case only if it is the same name
      have hsame (n : String × Json) (hn : n ∈ members) (hlower : lowercase m.1 = lowercase n.1) :
          members.any (·.1 == m.1) = true :=
        List.any_eq_true.mpr ⟨n, hn, beq_iff_eq.mpr
          (hdistinct m List.mem_cons_self n (List.mem_cons_of_mem _ hn) hlower).symm⟩
      rw [ofMembers_cons, lastValue?_cons, any_ofMembers]
      by_cases hagain : members.any (·.1 == m.1) = true
      · rw [if_pos hagain, hrest]
        obtain ⟨n, hn, hname⟩ := List.any_eq_true.mp hagain
        cases hlast : lastValue? members name with
        | some value => rfl
        | none =>
            have hother := lastValue?_eq_none_iff.mp hlast n hn
            rw [beq_iff_eq.mp hname] at hother
            rw [if_neg hother]
            rfl
      · rw [if_neg hagain, layered_cons]
        by_cases hname : name = lowercase m.1
        · have hlast : lastValue? members name = none :=
            lastValue?_eq_none_iff.mpr fun n hn hlower =>
              hagain (hsame n hn (hname.symm.trans hlower))
          rw [if_pos hname, if_pos hname, hlast]
          apply layered_other
          intro entry hentry hlower
          obtain ⟨n, hn, hkey⟩ := mem_of_mem_ofMembers hentry
          exact hagain (hsame n hn (by rw [← hname, hlower, hkey]))
        · rw [if_neg hname, if_neg hname, Option.or_none, hrest]

/-! ## The entries of the environment -/

theorem environmentStart_prefix_iff (cs : List Char) :
    environmentStart <+: cs ↔ String.ofList cs = "prague_" ++ String.ofList (cs.drop 7) := by
  constructor
  · rintro ⟨rest, rfl⟩
    rw [String.ofList_append]
    rfl
  · intro h
    have htext := congrArg String.toList h
    rw [String.toList_append, String.toList_ofList, String.toList_ofList] at htext
    exact ⟨_, htext.symm⟩

theorem lowercase_prefixed (key : String) :
    lowercase ("prague_" ++ key) = "prague_" ++ lowercase key := by
  apply String.toList_injective
  rw [toList_lowercase, String.toList_append, String.toList_append, toList_lowercase,
    List.map_append]
  rfl

theorem variableEntry?_eq_some_iff {label value : String} {entry : Entry} :
    variableEntry? label value = some entry ↔
      lowercase label = "prague_" ++ entry.1 ∧ entry.2 = ofText value := by
  unfold variableEntry?
  constructor
  · intro h
    dsimp only at h
    split at h
    · next hstart =>
        cases Option.some.inj h
        have hlabel := (environmentStart_prefix_iff _).mp (List.isPrefixOf_iff_prefix.mp hstart)
        rw [String.ofList_toList] at hlabel
        exact ⟨hlabel, rfl⟩
    · contradiction
  · obtain ⟨key, setting⟩ := entry
    rintro ⟨hlabel, rfl⟩
    have hstart : environmentStart <+: (lowercase label).toList :=
      ⟨key.toList, by rw [hlabel, String.toList_append]; rfl⟩
    dsimp only
    rw [if_pos (List.isPrefixOf_iff_prefix.mpr hstart), hlabel, String.toList_append]
    change some (String.ofList key.toList, ofText value) = _
    rw [String.ofList_toList]

theorem laidOver_ofText (text : String) (earlier : Option SettingValue) :
    (ofText text).laidOver earlier = ofText text := by
  unfold ofText
  split
  · rfl
  · split
    · rfl
    · split
      · rfl
      · split <;> rfl

theorem environmentEntries_cons (label value : String) (environment : List (String × String)) :
    environmentEntries ((label, value) :: environment) =
      ( variableEntry? label value).toList ++ environmentEntries environment := by
  rw [environmentEntries, List.filterMap_cons, ← environmentEntries]
  dsimp only
  cases variableEntry? label value <;> rfl

theorem layered_environmentEntries (environment : List (String × String)) (name : String)
    (earlier : Option SettingValue) :
    layered (environmentEntries environment) name earlier =
      ((lastValue? environment ("prague_" ++ name)).map ofText).or earlier := by
  induction environment generalizing earlier with
  | nil => rfl
  | cons v environment ih =>
      obtain ⟨label, value⟩ := v
      rw [lastValue?_cons, environmentEntries_cons]
      cases hentry : variableEntry? label value with
      | none =>
          have hother : "prague_" ++ name ≠ lowercase label := by
            intro h
            have hsome : variableEntry? label value = some (name, ofText value) :=
              variableEntry?_eq_some_iff.mpr ⟨h.symm, rfl⟩
            rw [hentry] at hsome
            cases hsome
          rw [if_neg hother, Option.or_none]
          exact ih earlier
      | some entry =>
          obtain ⟨hlabel, hvalue⟩ := variableEntry?_eq_some_iff.mp hentry
          have hlower : lowercase entry.1 = entry.1 := by
            have htwice := lowercase_lowercase label
            rw [hlabel, lowercase_prefixed] at htwice
            exact (String.append_right_inj _).mp htwice
          have hname : "prague_" ++ name = lowercase label ↔ name = entry.1 := by
            rw [hlabel, String.append_right_inj]
          rw [Option.toList_some, List.singleton_append, layered_cons, ih, hvalue,
            laidOver_ofText, hlower]
          by_cases hsame : name = entry.1
          · rw [if_pos hsame, if_pos (hname.mpr hsame)]
            cases lastValue? environment ("prague_" ++ name) <;> rfl
          · rw [if_neg hsame, if_neg (mt hname.mp hsame), Option.or_none]

theorem plain_of_environment (hplain : PlainVariables environment) :
    ∀ entry ∈ environmentEntries environment, IsPlain entry.1 := by
  intro entry hentry
  obtain ⟨⟨label, value⟩, hmem, hentry⟩ := List.mem_filterMap.mp hentry
  obtain ⟨hlabel, _⟩ := variableEntry?_eq_some_iff.mp hentry
  have htext : (lowercase label).toList = environmentStart ++ entry.1.toList := by
    rw [hlabel, String.toList_append]
    rfl
  have hwhole := (hplain _ hmem ⟨_, htext.symm⟩).lowercase
  intro c hc
  exact hwhole c (by rw [htext]; exact List.mem_append_right _ hc)

/-! ## The table and its settings -/

def under (whole : SettingValue) (name : String) : Option SettingValue :=
  (partsOf (some whole)).lookup name

theorem choose_eq_some_iff {whole : SettingValue} {convert : SettingValue → Option α}
    {missing field : α} :
    choose whole name convert missing = some field ↔
      Converted (under whole name) convert missing field := by
  unfold choose Converted under
  cases (partsOf (some whole)).lookup name <;> rfl

theorem ofTable?_eq_some_iff {whole : SettingValue} {s : Settings} :
    ofTable? whole = some s ↔ Won (under whole) s := by
  unfold ofTable?
  simp only [Option.bind_eq_bind, Option.bind_eq_some_iff, choose_eq_some_iff, Option.pure_def,
    Option.some.injEq]
  constructor
  · rintro ⟨_, halgorithm, _, hgain, _, halpha, _, hect0, _, hsize, _, hsegments, rfl⟩
    exact ⟨halgorithm, hgain, halpha, hect0, hsize, hsegments⟩
  · rintro ⟨halgorithm, hgain, halpha, hect0, hsize, hsegments⟩
    exact ⟨_, halgorithm, _, hgain, _, halpha, _, hect0, _, hsize, _, hsegments, rfl⟩

theorem resolve_none {whole : SettingValue} (h : ofTable? whole = none) :
    resolve whole = .error (.settings .unconvertible) := by
  rw [resolve, h]

theorem resolve_some {whole : SettingValue} {s : Settings} (h : ofTable? whole = some s) :
    resolve whole = s.validate.map fun _ => s := by
  rw [resolve, h]
  rfl

theorem resolve_eq_ok_iff {whole : SettingValue} {s : Settings} :
    resolve whole = .ok s ↔ Won (under whole) s ∧ s.validate = .ok () := by
  rw [← ofTable?_eq_some_iff]
  cases htable : ofTable? whole with
  | none =>
      rw [resolve_none htable]
      refine iff_of_false nofun ?_
      rintro ⟨h, _⟩
      cases h
  | some found =>
      rw [resolve_some htable, Option.some.injEq]
      constructor
      · intro h
        cases hvalid : found.validate with
        | error fault => rw [hvalid] at h; cases h
        | ok checked =>
            rw [hvalid] at h
            cases Except.ok.inj h
            exact ⟨rfl, hvalid⟩
      · rintro ⟨rfl, hvalid⟩
        rw [hvalid]
        rfl

theorem resolve_eq_error {whole : SettingValue}
    (h : ¬∃ s, Won (under whole) s ∧ s.validate = .ok ()) :
    ∃ cause, resolve whole = .error (.settings cause) := by
  cases htable : ofTable? whole with
  | none => exact ⟨_, resolve_none htable⟩
  | some found =>
      rw [resolve_some htable, validate]
      cases hfault : found.fault? with
      | none =>
          have hvalid : found.validate = .ok () := by rw [validate, hfault]
          exact absurd ⟨found, ofTable?_eq_some_iff.mp htable, hvalid⟩ h
      | some cause => exact ⟨cause, rfl⟩

theorem resolve_congr {whole other : SettingValue}
    (h : ∀ field ∈ fieldNames, under whole field = under other field) :
    resolve whole = resolve other := by
  have hchoose (field : String) (hfield : field ∈ fieldNames) {α : Type}
      (convert : SettingValue → Option α) (missing : α) :
      choose whole field convert missing = choose other field convert missing := by
    unfold choose
    rw [← under, h field hfield, under]
  have hsame : ofTable? whole = ofTable? other := by
    unfold ofTable?
    rw [hchoose "algorithm" (by decide), hchoose "gain" (by decide),
      hchoose "initial_alpha" (by decide), hchoose "use_ect0" (by decide),
      hchoose "segment_size" (by decide), hchoose "initial_cwnd_segments" (by decide)]
  unfold resolve
  rw [hsame]

theorem load?_eq_resolve {files : Files} {path : String}
    (hfile : Offers files path members) (henvironment : PlainVariables environment) :
    ∃ whole, load? files path environment = some (resolve whole) ∧
      ∀ field, under whole field = winning members environment field := by
  obtain ⟨text, htext, hparse⟩ := hfile.parsed
  have hentries : documentEntries? (.record members) = some (ofMembers (named members)) :=
    if_pos hfile.storable
  have hplain : ∀ entry ∈ ofMembers (named members) ++ environmentEntries environment,
      IsPlain entry.1 := by
    intro entry hentry
    rcases List.mem_append.mp hentry with hdocument | hvariable
    · obtain ⟨m, hm, hname⟩ := mem_of_mem_ofMembers hdocument
      exact hname ▸ hfile.plain m hm
    · exact plain_of_environment henvironment entry hvariable
  obtain ⟨parts, hparts, hlookup⟩ := collect?_plain hplain
  refine ⟨table parts, ?_, ?_⟩
  · simp only [load?, htext, json, Option.bind_some, hparse, hentries, hparts, Option.map_some]
  · intro field
    have hlayers := hlookup field
    rw [layered_append, layered_ofMembers hfile.distinct, layered_environmentEntries] at hlayers
    exact hlayers

theorem loadEnvironment?_eq_resolve (henvironment : PlainVariables environment) :
    ∃ whole, loadEnvironment? environment = some (resolve whole) ∧
      ∀ field, under whole field = winning [] environment field := by
  obtain ⟨parts, hparts, hlookup⟩ := collect?_plain (plain_of_environment henvironment)
  refine ⟨table parts, ?_, ?_⟩
  · rw [loadEnvironment?, hparts, Option.map_some]
  · intro field
    have hlayers := hlookup field
    rw [layered_environmentEntries] at hlayers
    exact hlayers

/-- Loading gives the settings of the winning values, if they convert and pass
the check, and a fault of the settings otherwise. Nothing else in the file and
the environment matters, and a file without any of the fields is as good as none. -/
theorem load?_winning {files : Files} {path : String}
    (hfile : Offers files path members) (henvironment : PlainVariables environment) :
    (∀ s, load? files path environment = some (.ok s) ↔
        Won (winning members environment) s ∧ s.validate = .ok ()) ∧
      ((¬∃ s, Won (winning members environment) s ∧ s.validate = .ok ()) →
        ∃ cause, load? files path environment = some (.error (.settings cause))) ∧
      (∀ otherFiles otherPath otherMembers otherEnvironment,
        Offers otherFiles otherPath otherMembers → PlainVariables otherEnvironment →
        (∀ field ∈ fieldNames,
          winning members environment field = winning otherMembers otherEnvironment field) →
        load? files path environment = load? otherFiles otherPath otherEnvironment) ∧
      ((∀ field ∈ fieldNames, lastValue? members field = none) →
        loadEnvironment? environment = load? files path environment) := by
  obtain ⟨whole, hload, hwhole⟩ := load?_eq_resolve hfile henvironment
  rw [hload, ← funext hwhole]
  refine ⟨?_, ?_, ?_, ?_⟩
  · intro s
    rw [Option.some.injEq, resolve_eq_ok_iff]
  · intro hnone
    obtain ⟨cause, hcause⟩ := resolve_eq_error hnone
    exact ⟨cause, congrArg some hcause⟩
  · intro otherFiles otherPath otherMembers otherEnvironment hother hplain hsame
    obtain ⟨other, hload', hother'⟩ := load?_eq_resolve hother hplain
    rw [hload', resolve_congr]
    intro field hfield
    rw [hsame field hfield, hother']
  · intro hnone
    obtain ⟨alone, hload', halone⟩ := loadEnvironment?_eq_resolve henvironment
    rw [hload', resolve_congr]
    intro field hfield
    rw [halone, hwhole, winning, winning, hnone field hfield]
    rfl

/-! ## A file and its environment -/

/-- The environment overrides a list, which no gain can be; the other values come
from the file in whatever case. A byte order mark is skipped. -/
def mixedFile : String :=
  "\uFEFF\x7b\"gain\":[],\"ALGORITHM\":\x7b\"RENO\":null\x7d,\"colour\":null," ++
    "\"Use_ECT0\":\"yes\"\x7d"

def mixedMembers : List (String × Json) :=
  [("gain", .array []), ("ALGORITHM", .record [("RENO", .null)]), ("colour", .null),
    ("Use_ECT0", .text "yes")]

def mixedEnvironment : List (String × String) := [("HOME", "/"), ("Prague_Gain", "0.25")]

theorem parse?_mixedFile :
    Json.parse? (withoutMark mixedFile) = some (.record mixedMembers) := by cbv

theorem offers_mixedFile : Offers ⟨fun _ => some mixedFile, []⟩ "config.json" mixedMembers :=
  ⟨⟨mixedFile, Files.find?_json rfl (by decide +kernel), parse?_mixedFile⟩, by decide +kernel,
    by decide +kernel, by decide +kernel⟩

def loads (check : Settings → Bool) : Option (Except Fault Settings) → Bool
  | some (.ok s) => check s
  | _ => false

theorem exists_of_loads {check : Settings → Bool} {loaded : Option (Except Fault Settings)}
    (h : loads check loaded = true) : ∃ s, loaded = some (.ok s) ∧ check s = true := by
  unfold loads at h
  split at h
  · next s => exact ⟨s, rfl, h⟩
  · cases h

theorem load?_winning_mixedFile :
    Offers ⟨fun _ => some mixedFile, []⟩ "config.json" mixedMembers ∧
      PlainVariables mixedEnvironment ∧
      ∃ s, load? ⟨fun _ => some mixedFile, []⟩ "config.json" mixedEnvironment = some (.ok s) ∧
        Won (winning mixedMembers mixedEnvironment) s ∧ s.algorithm = .reno ∧
        s.gain.toBits = (0.25 : Float).toBits ∧ s.useEct0 = true ∧ s.segmentSize = 1448 := by
  have hplain : PlainVariables mixedEnvironment := by decide +kernel
  obtain ⟨hload, _⟩ := load?_winning offers_mixedFile hplain
  have hloaded : loads (fun s => s.algorithm == .reno && (s.gain.toBits == (0.25 : Float).toBits &&
      (s.useEct0 && s.segmentSize == 1448)))
      (load? ⟨fun _ => some mixedFile, []⟩ "config.json" mixedEnvironment) = true := by
    decide +kernel
  obtain ⟨s, hs, hfields⟩ := exists_of_loads hloaded
  simp only [Bool.and_eq_true, beq_iff_eq] at hfields
  obtain ⟨halgorithm, hgain, hect0, hsize⟩ := hfields
  exact ⟨offers_mixedFile, hplain, s, hs, ((hload s).mp hs).1, halgorithm, hgain, hect0, hsize⟩

theorem won_default {value : String → Option SettingValue}
    (h : ∀ field ∈ fieldNames, value field = none) : Won value default := by
  have missing {α : Type} (field : String) (hfield : field ∈ fieldNames)
      (convert : SettingValue → Option α) (default : α) :
      Converted (value field) convert default default := by
    rw [Converted, h field hfield, Option.elim_none]
  constructor <;> exact missing _ (by decide) _ _

def emptyFile : String := "\x7b\x7d"

def hugeFile : String := "\x7b\"colour\":1e999\x7d"

def dottedVariable : List (String × String) := [("PRAGUE_ALGORITHM.RENO", "x")]

theorem parse?_emptyFile : Json.parse? (withoutMark emptyFile) = some (.record []) := by cbv

theorem offers_emptyFile : Offers ⟨fun _ => some emptyFile, []⟩ "config.json" [] :=
  ⟨⟨emptyFile, Files.find?_json rfl (by decide +kernel), parse?_emptyFile⟩, by decide +kernel,
    nofun, nofun⟩

theorem parse?_hugeFile :
    ∃ value, Json.parse? hugeFile = some (.record [("colour", value)]) :=
  ⟨.number ⟨false, ['1'], [], some ⟨false, ['9', '9', '9']⟩⟩, by cbv⟩

theorem winning_unknown (value : Json) :
    ∀ field ∈ fieldNames, winning [("colour", value)] [] field = none := by
  intro field hfield
  have hcolour : lastValue? [("colour", value)] field = none := by
    apply lastValue?_eq_none_iff.mpr
    rw [List.forall_mem_singleton]
    change field ≠ lowercase "colour"
    revert field
    decide +kernel
  rw [winning, hcolour]
  rfl

/-- A point in the name of a variable leads into a field, past the value that wins
by its name. And a number that is out of range spoils a file although no field has
its name. -/
theorem load?_not_winning :
    (Offers ⟨fun _ => some emptyFile, []⟩ "config.json" [] ∧
      Won (winning [] dottedVariable) default ∧ default.validate = .ok () ∧
      load? ⟨fun _ => some emptyFile, []⟩ "config.json" dottedVariable ≠ some (.ok default)) ∧
    ∃ value, Json.parse? hugeFile = some (.record [("colour", value)]) ∧
      Won (winning [("colour", value)] []) default ∧
      load? ⟨fun _ => some hugeFile, []⟩ "config.json" [] ≠ some (.ok default) := by
  have differs {loaded : Option (Except Fault Settings)}
      (h : loads (·.algorithm == .prague) loaded = false) : loaded ≠ some (.ok default) := by
    rintro rfl
    cases h
  refine ⟨⟨offers_emptyFile, ?_, ?_, differs (by decide +kernel)⟩, ?_⟩
  · refine won_default fun field hfield => Option.isNone_iff_eq_none.mp ?_
    revert field
    decide +kernel
  · rw [validate_eq_ok_iff]
    decide +kernel
  · obtain ⟨value, hparse⟩ := parse?_hugeFile
    exact ⟨value, hparse, won_default (winning_unknown value), differs (by decide +kernel)⟩

end Settings

end ScalableCongestion
