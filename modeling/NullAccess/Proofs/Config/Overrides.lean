import NullAccess.Command.Run
import NullAccess.Proofs.Files.Content
import NullAccess.Proofs.Json.Distinct
import NullAccess.Proofs.Ledger.Codec

/-!
# Settings over settings

The options of a command are set over the settings of the configuration file, and what comes out is
read as one configuration.  So the options win over the file if the settings that they leave in
place fit; if one of those does not, the defaults take the place of all settings, those of the
options too (`options_win_if_rest_fits`).  A file that is no text, or that has a key which is none,
stops the program.
-/

namespace NullAccess

open NullAccess.Tree

theorem DefaultSeverity.ofText?_text (d : DefaultSeverity) : ofText? d.text = some d := by
  cases d <;> rfl

theorem Json.toList?_toText?_strs (xs : List String) : toList? toText? (strs xs) = some xs :=
  toList?_map fun _ _ => rfl

namespace Config

/-! ## Options -/

/-- A setting, with a value of its type. -/
inductive Setting where
  | enforceMarkers (b : Bool)
  | defaultSeverity (d : DefaultSeverity)
  | ledger (s : String)
  | extensions (xs : List String)
  | ignore (xs : List String)

namespace Setting

def name : Setting → String
  | enforceMarkers _ => "enforce_suppression_comments"
  | defaultSeverity _ => "default_severity"
  | ledger _ => "ledger"
  | extensions _ => "extensions"
  | ignore _ => "ignore"

def value : Setting → Json
  | enforceMarkers b => .bool b
  | defaultSeverity d => .str d.text
  | ledger s => .str s
  | extensions xs => Json.strs xs
  | ignore xs => Json.strs xs

/-- The configuration has the setting. -/
def HoldsIn (c : Config) : Setting → Prop
  | enforceMarkers b => c.enforceMarkers = b
  | defaultSeverity d => c.defaultSeverity = d
  | ledger s => c.ledger = s
  | extensions xs => c.extensions = xs
  | ignore xs => c.ignore = xs

theorem value_ne_null (s : Setting) : s.value ≠ .null := by
  cases s <;> nofun

end Setting

/-- Options of which each is a setting, or null under the name of one. -/
structure WellTyped (overrides : List (String × Json)) : Prop where
  names : (overrides.map Prod.fst).Nodup
  typed : ∀ o ∈ overrides, ∃ s : Setting, o.1 = s.name ∧ (o.2 = .null ∨ o.2 = s.value)

/-- Whether a name is given a value. -/
def replaces (overrides : List (String × Json)) (name : String) : Bool :=
  overrides.any fun o => o.1 == name && o.2 != .null

/-- The settings that the options leave in place. -/
def spared (fields overrides : List (String × Json)) : List (String × Json) :=
  fields.filter fun field => !replaces overrides field.1

variable {fields overrides : List (String × Json)} {name : String} {c : Config}

theorem replaces_iff : replaces overrides name = true ↔ ∃ v, (name, v) ∈ overrides ∧ v ≠ .null := by
  simp [replaces]

theorem field?_spared (fields overrides : List (String × Json)) (name : String) :
    Json.field? name (spared fields overrides) =
      if replaces overrides name then none else Json.field? name fields := by
  show Named.value? name (spared fields overrides) =
    if replaces overrides name then none else Named.value? name fields
  induction fields with
  | nil => simp [spared]
  | cons field rest ih =>
    rw [spared, List.filter_cons, ← spared, Named.value?_cons]
    by_cases hname : field.1 = name
    · subst hname
      by_cases hreplaces : replaces overrides field.1 = true
      · simp [hreplaces, ih]
      · simp [hreplaces, Named.value?_cons]
    · split <;> simp [Named.value?_cons, hname, ih]

/-! ## One option after another -/

theorem override_cons (other : String) (v : Json) (fields rest : List (String × Json)) :
    override fields ((other, v) :: rest) =
      override (if v = .null then fields else Json.setField other v fields) rest := by
  rw [override, List.foldl_cons, ← override]
  cases v <;> rfl

theorem field?_override_of_not_replaces (h : replaces overrides name = false) :
    Json.field? name (override fields overrides) = Json.field? name fields := by
  induction overrides generalizing fields with
  | nil => rfl
  | cons o rest ih =>
    obtain ⟨other, v⟩ := o
    rw [replaces, List.any_cons, ← replaces, Bool.or_eq_false_iff] at h
    obtain ⟨hfirst, hrest⟩ := h
    rw [override_cons, ih hrest]
    by_cases hv : v = .null
    · rw [if_pos hv]
    · have hname : ¬ name = other := by
        rintro rfl
        simp [hv] at hfirst
      rw [if_neg hv, Json.field?_setField, if_neg hname]

theorem field?_override_of_mem (hnames : (overrides.map Prod.fst).Nodup) {v : Json}
    (hmem : (name, v) ∈ overrides) (hv : v ≠ .null) :
    Json.field? name (override fields overrides) = some v := by
  induction overrides generalizing fields with
  | nil => cases hmem
  | cons o rest ih =>
    rw [List.map_cons, List.nodup_cons] at hnames
    obtain ⟨hfresh, hnames⟩ := hnames
    rcases List.mem_cons.mp hmem with rfl | hrest
    · have hlast : replaces rest name = false := by
        rw [Bool.eq_false_iff, Ne, replaces_iff]
        rintro ⟨w, hw, -⟩
        exact hfresh (List.mem_map.mpr ⟨(name, w), hw, rfl⟩)
      rw [override_cons, if_neg hv, field?_override_of_not_replaces hlast, Json.field?_setField,
        if_pos rfl]
    · rw [override_cons]
      exact ih hnames hrest

/-! ## All options together -/

variable {α : Type} {f : Json → Option α} {default : α}

/-- The options fit, so whether a field can be read is up to what they leave in place. -/
theorem isSome_want_override (h : WellTyped overrides)
    (hfits : ∀ s : Setting, s.name = name → (f s.value).isSome) :
    (Json.want (override fields overrides) name f default).isSome =
      (Json.want (spared fields overrides) name f default).isSome := by
  unfold Json.want
  rw [field?_spared]
  by_cases hreplaces : replaces overrides name = true
  · obtain ⟨v, hmem, hv⟩ := replaces_iff.mp hreplaces
    obtain ⟨s, hname, hnull | rfl⟩ := h.typed _ hmem
    · exact absurd hnull hv
    · rw [if_pos hreplaces, field?_override_of_mem h.names hmem hv]
      exact hfits s hname.symm
  · rw [if_neg hreplaces, field?_override_of_not_replaces (by simpa using hreplaces)]

theorem isSome_ofFields? (o : List (String × Json)) :
    (ofFields? o).isSome =
      ((Json.want o "enforce_suppression_comments" Json.toBool? false).isSome &&
        (Json.want o "default_severity" (fun v => v.toText?.bind DefaultSeverity.ofText?)
          .error).isSome &&
        (Json.want o "ledger" Json.toText? ".nullscan-whitelist.json").isSome &&
        (Json.want o "extensions" (Json.toList? Json.toText?) scriptExtensions).isSome &&
        (Json.want o "ignore" (Json.toList? Json.toText?) []).isSome) := by
  unfold ofFields?
  cases Json.want o "enforce_suppression_comments" Json.toBool? false <;>
  cases Json.want o "default_severity" (fun v => v.toText?.bind DefaultSeverity.ofText?) .error <;>
  cases Json.want o "ledger" Json.toText? ".nullscan-whitelist.json" <;>
  cases Json.want o "extensions" (Json.toList? Json.toText?) scriptExtensions <;>
  cases Json.want o "ignore" (Json.toList? Json.toText?) [] <;> rfl

/-- A configuration can be read after the options are set iff what they leave in place fits. -/
theorem isSome_ofFields?_override (h : WellTyped overrides) (fields : List (String × Json)) :
    (ofFields? (override fields overrides)).isSome =
      (ofFields? (spared fields overrides)).isSome := by
  rw [isSome_ofFields?, isSome_ofFields?]
  have hmarkers : ∀ s : Setting, s.name = "enforce_suppression_comments" →
      (Json.toBool? s.value).isSome := by
    intro s hs
    cases s <;> simp_all [Setting.name, Setting.value, Json.toBool?]
  have hseverity : ∀ s : Setting, s.name = "default_severity" →
      (s.value.toText?.bind DefaultSeverity.ofText?).isSome := by
    intro s hs
    cases s <;> simp_all [Setting.name, Setting.value, Json.toText?, DefaultSeverity.ofText?_text]
  have hledger : ∀ s : Setting, s.name = "ledger" → s.value.toText?.isSome := by
    intro s hs
    cases s <;> simp_all [Setting.name, Setting.value, Json.toText?]
  have hlists : ∀ s : Setting, s.name = "extensions" ∨ s.name = "ignore" →
      (Json.toList? Json.toText? s.value).isSome := by
    intro s hs
    cases s <;> simp_all [Setting.name, Setting.value, Json.toList?_toText?_strs]
  rw [isSome_want_override h hmarkers, isSome_want_override h hseverity,
    isSome_want_override h hledger, isSome_want_override h fun s hs => hlists s (.inl hs),
    isSome_want_override h fun s hs => hlists s (.inr hs)]

theorem eq_of_want {o : List (String × Json)} {v : Json} {a a' : α}
    (h : Json.want o name f default = some a) (hfield : Json.field? name o = some v)
    (hv : f v = some a') : a = a' := by
  rw [Json.want, hfield] at h
  exact Option.some.inj (h.symm.trans hv)

/-- Every option that is set is a setting of the configuration that is read. -/
theorem holdsIn_of_mem (h : WellTyped overrides) {s : Setting}
    (hmem : (s.name, s.value) ∈ overrides) (hc : ofFields? (override fields overrides) = some c) :
    s.HoldsIn c := by
  have hfield : Json.field? s.name (override fields overrides) = some s.value :=
    field?_override_of_mem h.names hmem s.value_ne_null
  simp only [ofFields?, Option.bind_eq_bind, Option.bind_eq_some_iff, Option.pure_def,
    Option.some.injEq] at hc
  obtain ⟨b, hb, d, hd, l, hl, xs, hxs, ys, hys, rfl⟩ := hc
  cases s with
  | enforceMarkers b' => exact eq_of_want hb hfield rfl
  | defaultSeverity d' => exact eq_of_want hd hfield d'.ofText?_text
  | ledger l' => exact eq_of_want hl hfield rfl
  | extensions xs' => exact eq_of_want hxs hfield (Json.toList?_toText?_strs xs')
  | ignore ys' => exact eq_of_want hys hfield (Json.toList?_toText?_strs ys')

/-! ## The file -/

/-- Whether a key of a mapping is text, be it broken. -/
def isTextKey : Yaml.Node → Bool
  | .text _ => true
  | .broken => true
  | _ => false

theorem pairsToJson_eq_none_iff {pairs : List (Yaml.Node × Yaml.Node)} :
    Yaml.Node.pairsToJson pairs = none ↔ ∃ pair ∈ pairs, isTextKey pair.1 = false := by
  induction pairs with
  | nil => simp [Yaml.Node.pairsToJson]
  | cons pair rest ih =>
    obtain ⟨k, v⟩ := pair
    cases k <;> simp [Yaml.Node.pairsToJson, isTextKey, ih]

/-- The value that a text denotes, as YAML. -/
def yamlOf (s : String) : Except Yaml.Failure Yaml.Node := Yaml.read (Text.unifyEnds s.toList)

/-- The settings that the configuration file gives.  It gives none if it is missing, cannot be read,
breaks the rules of its language, or is no mapping. -/
inductive Gives (t : Tree) (path : Path) : List (String × Json) → Prop where
  | nothing (h : t.probe path = .ok none) : Gives t path []
  | unreadable {n : Node} {e : FileError} (hprobe : t.probe path = .ok (some n))
      (hread : t.read path = .error e) : Gives t path []
  | malformed {s : String} (hread : t.read path = .ok s.toUTF8) (h : yamlOf s = .error .malformed) :
      Gives t path []
  | noMapping {s : String} {v : Yaml.Node} (hread : t.read path = .ok s.toUTF8)
      (h : yamlOf s = .ok v) (hv : ∀ pairs, v ≠ .map pairs) : Gives t path []
  | mapping {s : String} {pairs : List (Yaml.Node × Yaml.Node)} {fields : List (String × Json)}
      (hread : t.read path = .ok s.toUTF8) (h : yamlOf s = .ok (.map pairs))
      (hfields : Yaml.Node.pairsToJson pairs = some fields) : Gives t path fields

/-- What keeps the configuration from being read. -/
inductive Halts (t : Tree) (path : Path) : Stop → Prop where
  | tooLong (h : t.locate path = .error .nameTooLong) :
      Halts t path (.file ⟨.nameTooLong, path.text⟩)
  | notText {b : ByteArray} (hread : t.read path = .ok b) (h : ∀ s : String, s.toUTF8 ≠ b) :
      Halts t path .notText
  | keyNotText {s : String} {pairs : List (Yaml.Node × Yaml.Node)}
      (hread : t.read path = .ok s.toUTF8) (h : yamlOf s = .ok (.map pairs))
      (hkey : ∃ pair ∈ pairs, isTextKey pair.1 = false) : Halts t path .keyNotText
  | noValue {s : String} {why : Yaml.Failure} (hread : t.read path = .ok s.toUTF8)
      (h : yamlOf s = .error why) (hwhy : why ≠ .malformed) : Halts t path (.noValue why)

variable {t : Tree} {root path : Path}

theorem gives_or_halts (t : Tree) (path : Path) :
    (∃ fields, Gives t path fields) ∨ ∃ stop, Halts t path stop := by
  cases content t path with
  | tooLong h => exact .inr ⟨_, .tooLong h⟩
  | nothing h => exact .inl ⟨_, .nothing h⟩
  | unreadable hprobe hread => exact .inl ⟨_, .unreadable hprobe hread⟩
  | bytes hread h => exact .inr ⟨_, .notText hread h⟩
  | @text s hread =>
    cases h : yamlOf s with
    | error why =>
      by_cases hwhy : why = .malformed
      · subst hwhy
        exact .inl ⟨_, .malformed hread h⟩
      · exact .inr ⟨_, .noValue hread h hwhy⟩
    | ok v =>
      cases v with
      | map pairs =>
        cases hfields : Yaml.Node.pairsToJson pairs with
        | none => exact .inr ⟨_, .keyNotText hread h (pairsToJson_eq_none_iff.mp hfields)⟩
        | some fields => exact .inl ⟨_, .mapping hread h hfields⟩
      | _ => exact .inl ⟨_, .noMapping hread h nofun⟩

theorem yamlLoad_of_text {s : String} (hread : t.read path = .ok s.toUTF8) :
    Yaml.load t path = (yamlOf s).mapError .failed := by
  rw [Yaml.load, hread]
  simp only [Text.fromUTF8?_toUTF8]
  rfl

theorem fieldsOf_of_noMapping {v : Yaml.Node} (h : ∀ pairs, v ≠ .map pairs) :
    (fieldsOf v).2 = .ok [] := by
  unfold fieldsOf
  split
  · rfl
  · split
    · exact absurd rfl (h _)
    · rfl

theorem fieldsOf_map (pairs : List (Yaml.Node × Yaml.Node)) :
    (fieldsOf (.map pairs)).2 =
      match Yaml.Node.pairsToJson pairs with
      | some fields => .ok fields
      | none => .error .keyNotText := by
  cases pairs with
  | nil => rfl
  | cons pair rest =>
    rw [fieldsOf]
    cases Yaml.Node.pairsToJson (pair :: rest) <;> rfl

theorem readFields_of_yaml {s : String} {v : Yaml.Node}
    (hread : t.read (filePath root) = .ok s.toUTF8) (h : yamlOf s = .ok v) :
    readFields t root = fieldsOf v := by
  rw [readFields, probe_of_read hread]
  simp only [yamlLoad_of_text hread, h, Except.mapError]

theorem readFields_of_gives (h : Gives t (filePath root) fields) :
    (readFields t root).2 = .ok fields := by
  cases h with
  | nothing h => rw [readFields, h]
  | unreadable hprobe hread =>
    rw [readFields, hprobe]
    simp only [Yaml.load, hread]
  | malformed hread h =>
    rw [readFields, probe_of_read hread]
    simp only [yamlLoad_of_text hread, h, Except.mapError]
  | noMapping hread h hv => rw [readFields_of_yaml hread h, fieldsOf_of_noMapping hv]
  | mapping hread h hfields => rw [readFields_of_yaml hread h, fieldsOf_map, hfields]

theorem readFields_of_halts {stop : Stop} (h : Halts t (filePath root) stop) :
    (readFields t root).2 = .error stop := by
  cases h with
  | tooLong h => rw [readFields, probe_of_tooLong h]
  | notText hread h =>
    rw [readFields, probe_of_read hread]
    simp only [Yaml.load, hread, Text.fromUTF8?_eq_none_iff.mpr h]
  | keyNotText hread h hkey =>
    rw [readFields_of_yaml hread h, fieldsOf_map, pairsToJson_eq_none_iff.mpr hkey]
  | @noValue s why hread h hwhy =>
    rw [readFields, probe_of_read hread]
    simp only [yamlLoad_of_text hread, h, Except.mapError]

/-! ## The configuration -/

theorem load_snd (t : Tree) (root : Path) (overrides : List (String × Json)) :
    (load t root overrides).2 =
      (readFields t root).2.map fun fields => (ofFields? (override fields overrides)).getD {} := by
  unfold load
  split
  · rename_i h
    rw [h]
    rfl
  · rename_i h
    rw [h]
    cases hread : ofFields? (override _ overrides) <;> simp [Except.map, hread]

theorem load_of_gives (h : Gives t (filePath root) fields) :
    (load t root overrides).2 = .ok ((ofFields? (override fields overrides)).getD {}) := by
  rw [load_snd, readFields_of_gives h]
  rfl

theorem load_of_halts {stop : Stop} (h : Halts t (filePath root) stop) :
    (load t root overrides).2 = .error stop := by
  rw [load_snd, readFields_of_halts h]
  rfl

theorem load_eq_error_iff {stop : Stop} :
    (load t root overrides).2 = .error stop ↔ Halts t (filePath root) stop := by
  refine ⟨fun h => ?_, load_of_halts⟩
  obtain ⟨fields, hgives⟩ | ⟨stop', hhalts⟩ := gives_or_halts t (filePath root)
  · rw [load_of_gives hgives] at h
    cases h
  · rw [load_of_halts hhalts] at h
    cases h
    exact hhalts

/-- The configuration that options and file give together: the options hold in it if the rest of the
file fits, and it is the default one if not. -/
theorem config_of_gives (h : WellTyped overrides) (hgives : Gives t (filePath root) fields) :
    ∃ c, (load t root overrides).2 = .ok c ∧
      ((ofFields? (spared fields overrides)).isSome →
        ∀ s : Setting, (s.name, s.value) ∈ overrides → s.HoldsIn c) ∧
      (ofFields? (spared fields overrides) = none → c = {}) := by
  have hfits := isSome_ofFields?_override h fields
  refine ⟨_, load_of_gives hgives, fun hsome s hs => ?_, fun hnone => ?_⟩
  · rw [← hfits, Option.isSome_iff_exists] at hsome
    obtain ⟨c, hc⟩ := hsome
    rw [hc]
    exact holdsIn_of_mem h hs hc
  · rw [hnone, Option.isSome_none, Option.isSome_eq_false_iff, Option.isNone_iff_eq_none] at hfits
    rw [hfits]
    rfl

/-! ## The ledger of a scan -/

theorem wellTyped_scanOverrides (target : Target) (o : ScanOptions) :
    WellTyped (Environment.scanOverrides target o) := by
  refine ⟨by simp [Environment.scanOverrides], ?_⟩
  simp only [Environment.scanOverrides, List.forall_mem_cons, List.not_mem_nil, false_implies,
    implies_true, and_true]
  refine ⟨?_, ?_, ?_⟩
  · cases o.defaultSeverity with
    | none => exact ⟨.defaultSeverity .error, rfl, .inl rfl⟩
    | some d => exact ⟨.defaultSeverity d, rfl, .inr rfl⟩
  · cases o.enforceMarkers with
    | none => exact ⟨.enforceMarkers false, rfl, .inl rfl⟩
    | some b => exact ⟨.enforceMarkers b, rfl, .inr rfl⟩
  · cases target.ledger with
    | none => exact ⟨.ledger "", rfl, .inl rfl⟩
    | some s => exact ⟨.ledger s, rfl, .inr rfl⟩

/-- The root that a command line names is a directory, and the command goes on with it. -/
def HasRoot (e : Environment) (target : Target) (root : Path) : Prop :=
  ∀ next : Path → Ran, e.withRoot target next = next root

variable {e : Environment} {target : Target}

theorem scan_of_ok {o : ScanOptions} (hroot : HasRoot e target root)
    (h : (load e.tree root (Environment.scanOverrides target o)).2 = .ok c) :
    e.scan target o = (e.scanWith o root c (c.ledgerPath root none)).after
      (load e.tree root (Environment.scanOverrides target o)).1 := by
  rw [Environment.scan, hroot, Environment.withConfig]
  split
  · rename_i hload
    rw [hload] at h
    cases h
  · rename_i hload
    rw [hload] at h ⊢
    cases h
    rfl

theorem scan_of_error {o : ScanOptions} {stop : Stop} (hroot : HasRoot e target root)
    (h : (load e.tree root (Environment.scanOverrides target o)).2 = .error stop) :
    (e.scan target o).stop = some stop := by
  rw [Environment.scan, hroot, Environment.withConfig]
  split
  · rename_i hload
    rw [hload] at h
    cases h
    rfl
  · rename_i hload
    rw [hload] at h
    cases h

/-- A scan that is told its ledger opens that ledger if the rest of the configuration file fits, and
the usual one if not. -/
theorem scan_opens {ledger : String} (o : ScanOptions) (hroot : HasRoot e target root)
    (htarget : target.ledger = some ledger) (hgives : Gives e.tree (filePath root) fields) :
    ∃ c warnings, load e.tree root (Environment.scanOverrides target o) = (warnings, .ok c) ∧
      e.scan target o = (e.scanWith o root c (root.join (Path.ofText
        (if (ofFields? (spared fields (Environment.scanOverrides target o))).isSome then ledger
          else ({} : Config).ledger)))).after warnings := by
  obtain ⟨c, hload, hwin, hlose⟩ := config_of_gives (wellTyped_scanOverrides target o) hgives
  have hmem : ((Setting.ledger ledger).name, (Setting.ledger ledger).value) ∈
      Environment.scanOverrides target o := by
    simp [Environment.scanOverrides, htarget, Setting.name, Setting.value, Json.ofOption]
  have hledger : c.ledger =
      if (ofFields? (spared fields (Environment.scanOverrides target o))).isSome then ledger
        else ({} : Config).ledger := by
    split
    · rename_i hsome
      exact hwin hsome (.ledger ledger) hmem
    · rename_i hnone
      rw [hlose (by simpa using hnone)]
  refine ⟨c, (load e.tree root (Environment.scanOverrides target o)).1, Prod.ext rfl hload, ?_⟩
  rw [← hledger]
  exact scan_of_ok hroot hload

/-- The configuration is read, and the options win in it, unless the file stops the program or what
the options leave of it does not fit: then the configuration is the default one, whatever the
options say.  The ledger that a scan is told goes the way of all options. -/
theorem options_win_if_rest_fits (e : Environment) (root : Path) (overrides : List (String × Json))
    (h : WellTyped overrides) :
    (∀ stop, (load e.tree root overrides).2 = .error stop ↔ Halts e.tree (filePath root) stop) ∧
      ((¬ ∃ stop, Halts e.tree (filePath root) stop) →
        ∃ fields, Gives e.tree (filePath root) fields) ∧
      (∀ fields, Gives e.tree (filePath root) fields →
        ∃ c, (load e.tree root overrides).2 = .ok c ∧
          ((ofFields? (spared fields overrides)).isSome →
            ∀ s : Setting, (s.name, s.value) ∈ overrides → s.HoldsIn c) ∧
          (ofFields? (spared fields overrides) = none → c = {})) ∧
      ∀ (target : Target) (o : ScanOptions) (ledger : String), HasRoot e target root →
        target.ledger = some ledger →
        (∀ stop, Halts e.tree (filePath root) stop → (e.scan target o).stop = some stop) ∧
        ∀ fields, Gives e.tree (filePath root) fields →
          ∃ c warnings, load e.tree root (Environment.scanOverrides target o) = (warnings, .ok c) ∧
            e.scan target o = (e.scanWith o root c (root.join (Path.ofText
              (if (ofFields? (spared fields (Environment.scanOverrides target o))).isSome
                then ledger else ({} : Config).ledger)))).after warnings := by
  refine ⟨fun _ => load_eq_error_iff, fun hnot => ?_, fun _ => config_of_gives h,
    fun target o ledger hroot htarget =>
      ⟨fun _ hhalts => scan_of_error hroot (load_of_halts hhalts),
        fun _ => scan_opens o hroot htarget⟩⟩
  exact (gives_or_halts e.tree (filePath root)).resolve_right hnot

/-- Without a configuration file the options win. -/
theorem options_win_if_rest_fits_sample :
    WellTyped [("ledger", .str "other.json"), ("default_severity", .null)] ∧
      ∃ c, (load ⟨[]⟩ (Path.ofText "/project")
          [("ledger", .str "other.json"), ("default_severity", .null)]).2 = .ok c ∧
        c.ledger = "other.json" := by
  have htyped : WellTyped [("ledger", .str "other.json"), ("default_severity", .null)] := by
    refine ⟨by decide, List.forall_mem_cons.mpr ⟨?_, List.forall_mem_singleton.mpr ?_⟩⟩
    · exact ⟨.ledger "other.json", rfl, .inr rfl⟩
    · exact ⟨.defaultSeverity .error, rfl, .inl rfl⟩
  have hgives : Gives ⟨[]⟩ (filePath (Path.ofText "/project")) [] := .nothing (by decide +kernel)
  obtain ⟨-, -, hconfig, -⟩ :=
    options_win_if_rest_fits { tree := ⟨[]⟩, cwd := {}, today := "2025-03-04" }
      (Path.ofText "/project") _ htyped
  obtain ⟨c, hload, hwin, -⟩ := hconfig [] hgives
  exact ⟨htyped, c, hload, hwin rfl (.ledger "other.json") List.mem_cons_self⟩

theorem yamlOf_ignore_number : yamlOf "ignore: 5" = .ok (.map [(.text "ignore", .int 5)]) := by
  have hdocument : Yaml.readDocument (Text.unifyEnds "ignore: 5".toList) =
      .ok (.map .map [(.scalar .text "ignore".toList true, .scalar .int ['5'] true)]) := by
    with_unfolding_all rfl
  rw [yamlOf, Yaml.read, hdocument]
  show Yaml.Form.node _ = _
  -- What a form denotes is defined by well-founded recursion, so its equations are needed.
  simp [Yaml.Form.node, Yaml.Form.settle, Yaml.Form.settlePairs, Yaml.Form.ownAndMerged]
  rfl

/-- A list that is a number takes the ledger of the options away. -/
theorem option_lost_to_unfit_rest :
    ∃ c, (load ⟨[([".nullscan.yaml"], .file "ignore: 5".toUTF8)]⟩ (Path.ofText "/")
        [("ledger", .str "other.json")]).2 = .ok c ∧ ¬ (Setting.ledger "other.json").HoldsIn c := by
  have hgives :
      Gives ⟨[([".nullscan.yaml"], .file "ignore: 5".toUTF8)]⟩ (filePath (Path.ofText "/"))
      [("ignore", .int 5)] := .mapping (by decide +kernel) yamlOf_ignore_number rfl
  refine ⟨_, load_of_gives hgives, ?_⟩
  show ¬ _ = _
  decide +kernel

end Config

end NullAccess
