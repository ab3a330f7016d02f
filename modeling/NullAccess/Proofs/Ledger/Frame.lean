import NullAccess.Proofs.Ledger.Identity

/-!
# What an operation leaves alone

An operation names an entry or a framework, and nothing else in the ledger changes but the counts
and the date.  An edit of entries and an edit of patterns touch different tables, and what an
operation plans depends on its own table only (`plan_of_entries`, `plan_of_frameworks`).  So an
operation on entries and one on patterns can change places (`operations_keep_to_their_target`).
-/

namespace NullAccess

/-! ## The fields of an entry -/

/-- The fields of an entry without the values that do not fit. -/
def Entry.ownFields (e : Entry) : List (String × Json) :=
  match ({ e with unfit := [] } : Entry).toJson with
  | .obj fields => fields
  | _ => []

namespace Store.Change

/-- The value that a change gives to its field. -/
def value : Change → Json
  | category v => .str v
  | file v => .str v
  | line v => .int v
  | approvedCodeSnapshot v => .str v
  | reason v => .str v
  | approvedDate v => .str v
  | dependencies v => .arr (v.map Dependency.toJson)
  | lastValidatedDate v => Json.ofOption .str v
  | unfit _ v => v
  | locked _ => .null

/-- The value that a field is given last. -/
def last? (changes : List Change) (name : String) : Option Json :=
  Json.field? name (changes.map fun c => (c.fieldName, c.value)).reverse

theorem ownFields_apply {c : Change} (hfit : c.isFit = true) (hlocked : c.locked? = none)
    (e : Entry) : (c.apply e).ownFields = Json.setField c.fieldName c.value e.ownFields := by
  cases c with
  | unfit name v => cases hfit
  | locked name => cases hlocked
  | _ => rfl

end Store.Change

namespace Entry

theorem field?_foldl_setField (values fields : List (String × Json)) (name : String) :
    Json.field? name (values.foldl (fun fields x => Json.setField x.1 x.2 fields) fields) =
      (Json.field? name values.reverse).or (Json.field? name fields) := by
  induction values generalizing fields with
  | nil => rfl
  | cons x rest ih =>
    rw [List.foldl_cons, ih, Json.field?_setField, List.reverse_cons, Json.field?_append,
      Json.field?_singleton, Option.or_assoc]
    split <;> simp

/-- What a field of an entry holds: the value that does not fit if there is one, and else its
own. -/
theorem get?_toJson (e : Entry) (name : String) :
    e.toJson.get? name = (Json.field? name e.unfit.reverse).or (Json.field? name e.ownFields) :=
  field?_foldl_setField e.unfit e.ownFields name

/-- A change gives its field a value, and every other field keeps the one that it has. -/
theorem get?_apply {c : Store.Change} (hlocked : c.locked? = none) (e : Entry) (name : String) :
    (c.apply e).toJson.get? name =
      if name = c.fieldName then some c.value else e.toJson.get? name := by
  have hkept : Json.field? name (c.keptUnfit e).reverse =
      if name = c.fieldName then none else Json.field? name e.unfit.reverse := by
    rw [Store.Change.keptUnfit, ← List.filter_reverse]
    exact Json.field?_filter_ne name c.fieldName e.unfit.reverse
  rw [get?_toJson, get?_toJson]
  cases hfit : c.isFit with
  | true =>
    rw [Store.Change.unfit_apply_eq hfit hlocked, Store.Change.ownFields_apply hfit hlocked, hkept,
      Json.field?_setField]
    split <;> simp
  | false =>
    cases c with
    | unfit n v =>
      show (Json.field? name (Store.Change.keptUnfit e (.unfit n v) ++ [(n, v)]).reverse).or
          (Json.field? name e.ownFields) =
        if name = n then some v
        else (Json.field? name e.unfit.reverse).or (Json.field? name e.ownFields)
      rw [List.reverse_append, List.reverse_singleton, Json.field?_append, Json.field?_singleton,
        hkept]
      by_cases hname : name = n <;> simp [hname, Store.Change.fieldName]
    | _ => cases hfit

theorem get?_foldl_apply {changes : List Store.Change}
    (hlocked : changes.findSome? Store.Change.locked? = none) (e : Entry) (name : String) :
    (changes.foldl Store.Change.apply e).toJson.get? name =
      (Store.Change.last? changes name).or (e.toJson.get? name) := by
  induction changes generalizing e with
  | nil => rfl
  | cons c rest ih =>
    obtain ⟨hc, hrest⟩ : c.locked? = none ∧ rest.findSome? Store.Change.locked? = none := by
      simpa using hlocked
    have hlast : Store.Change.last? (c :: rest) name =
        (Store.Change.last? rest name).or (if name = c.fieldName then some c.value else none) := by
      rw [Store.Change.last?, List.map_cons, List.reverse_cons, Json.field?_append,
        Json.field?_singleton]
      rfl
    rw [List.foldl_cons, ih hrest, get?_apply hc, hlast, Option.or_assoc]
    split <;> simp

end Entry

/-! ## What may differ between two ledgers -/

namespace Ledger

/-- The second ledger has one more entry, at the end. -/
def Appends (l l' : Ledger) (e : Entry) : Prop :=
  l'.entries = l.entries ++ [e] ∧ l'.frameworks = l.frameworks

/-- In the second ledger the entry of an id has changed where it stands, by its fields and no
others. -/
def Alters (l l' : Ledger) (id : String) (changes : List Store.Change) : Prop :=
  (∃ before e after e', l.entries = before ++ e :: after ∧ l'.entries = before ++ e' :: after ∧
    e.id = id ∧ e'.id = id ∧
    ∀ name, e'.toJson.get? name = (Store.Change.last? changes name).or (e.toJson.get? name)) ∧
  l'.frameworks = l.frameworks

/-- The second ledger has no entry of an id. -/
def Drops (l l' : Ledger) (id : String) : Prop :=
  l'.entries = l.entries.filter (·.id != id) ∧ l'.frameworks = l.frameworks

/-- The ledgers have the same entries, and the same patterns but for the one of a name. -/
def Repatterns (l l' : Ledger) (name : String) (p : Option FrameworkPattern) : Prop :=
  l'.entries = l.entries ∧ l'.framework? name = p ∧
    l'.frameworks.filter (·.1 != name) = l.frameworks.filter (·.1 != name)

variable {l : Ledger} {id name : String}

theorem removeEntry_eq_filter {es : List Entry} (hids : (es.map (·.id)).Nodup) (id : String) :
    removeEntry id es = es.filter (·.id != id) := by
  induction es with
  | nil => rfl
  | cons e rest ih =>
    rw [List.map_cons, List.nodup_cons] at hids
    rw [removeEntry]
    by_cases h : e.id = id
    · have hrest : ∀ a ∈ rest, (a.id != id) = true := by
        intro a ha
        have hne : a.id ≠ id := fun heq => hids.1 (List.mem_map.mpr ⟨a, ha, heq.trans h.symm⟩)
        simpa using hne
      rw [if_pos h, List.filter_cons_of_neg (by simp [h]), List.filter_eq_self.mpr hrest]
    · rw [if_neg h, List.filter_cons_of_pos (by simpa using h), ih hids.2]

theorem framework?_setFramework (name : String) (p : FrameworkPattern) (l : Ledger) :
    framework? { l with frameworks := setFramework name p l.frameworks } name = some p := by
  show Named.value? name (setFramework name p l.frameworks) = some p
  rw [setFramework_eq_alter, Named.value?_alter, if_pos rfl]

theorem filter_setFramework (name : String) (p : FrameworkPattern)
    (fs : List (String × FrameworkPattern)) :
    (setFramework name p fs).filter (·.1 != name) = fs.filter (·.1 != name) := by
  induction fs with
  | nil => simp [setFramework]
  | cons f rest ih =>
    obtain ⟨n, q⟩ := f
    rw [setFramework]
    by_cases h : n = name
    · simp [h]
    · rw [if_neg h, List.filter_cons_of_pos (by simpa using h),
        List.filter_cons_of_pos (by simpa using h), ih]

theorem repatterns_setFramework (name : String) (p : FrameworkPattern) (l : Ledger) :
    l.Repatterns { l with frameworks := setFramework name p l.frameworks } name (some p) :=
  ⟨rfl, framework?_setFramework name p l, filter_setFramework name p l.frameworks⟩

theorem framework?_eq_none_of_filter {l' : Ledger}
    (h : l'.frameworks = l.frameworks.filter (·.1 != name)) : l'.framework? name = none := by
  rw [framework?, h, Option.map_eq_none_iff, List.find?_eq_none]
  simp

/-- The entry of an id, changed where it stands. -/
theorem alters_modifyEntry {e : Entry} {changes : List Store.Change} (hentry : l.entry? id = some e)
    (hlocked : changes.findSome? Store.Change.locked? = none) :
    l.Alters { l with
      entries := modifyEntry id (fun _ => changes.foldl Store.Change.apply e) l.entries }
      id changes := by
  obtain ⟨before, after, hentries, he, hbefore⟩ := exists_of_entry? hentry
  refine ⟨⟨before, e, after, changes.foldl Store.Change.apply e, hentries, ?_, he, ?_, ?_⟩, rfl⟩
  · show modifyEntry id _ l.entries = _
    rw [hentries, modifyEntry_append he hbefore]
  · rw [Store.id_foldl_apply, he]
  · exact Entry.get?_foldl_apply hlocked e

end Ledger

namespace Operation

open Ledger

/-! ## Frames -/

/-- What an operation that succeeds does to the entries and patterns of a ledger; `done` says
whether there was anything to do.  What is added is the given entry as it is given, under an id that
the ledger makes up if it has none. -/
def Frame (l l' : Ledger) (done : Bool) : Operation → Prop
  | add entry =>
    ∃ id, (entry.id ≠ "" → id = entry.id) ∧ l.Appends l' { entry with id }
  | update id changes => l.Alters l' id changes
  | remove id => (done = true ↔ ∃ e ∈ l.entries, e.id = id) ∧ l.Drops l' id
  | addFramework name signatures description stats verifiedBy =>
    ∃ p : FrameworkPattern, p.signatures = signatures ∧ p.description = description ∧
      p.stats = stats ∧ p.verifiedBy = verifiedBy ∧ p.enabled = true ∧ l.Repatterns l' name (some p)
  | setEnabled name enabled =>
    ∃ p, l.framework? name = some p ∧ l.Repatterns l' name (some { p with enabled })
  | removeFramework name =>
    (done = true ↔ l.framework? name ≠ none) ∧ l.Repatterns l' name none
  | approve _ request =>
    ∃ e, e.file = request.file ∧ e.line = request.line ∧ e.category = request.category ∧
      l.Appends l' e
  | reapprove _ id =>
    ∃ code dependencies, l.Alters l' id [.approvedCodeSnapshot code, .dependencies dependencies]

/-- The ledger in memory after a plan was carried out. -/
def settle (l : Ledger) (today : String) : Option Edit → Ledger
  | none => l
  | some edit => (edit.apply l).stamped today

variable {s s' : Store} {t t' : Tree} {today : String} {planned : Option Edit}

/-- An operation succeeds by carrying out what it planned. -/
theorem perform_done {op : Operation} {done : Bool}
    (h : op.perform s t today = ⟨t', s', .ok done⟩) :
    ∃ planned, op.plan s t today = .ok planned ∧ done = planned.isSome ∧
      s' = { s with data := settle s.data today planned } := by
  rw [perform_eq] at h
  cases hplan : op.plan s t today with
  | error e =>
    rw [hplan] at h
    cases h
  | ok planned =>
    rw [hplan] at h
    refine ⟨planned, rfl, ?_⟩
    cases planned with
    | none =>
      cases h
      exact ⟨rfl, rfl⟩
    | some edit =>
      obtain ⟨hdone, hwrote⟩ := Store.commit_eq_ok_iff.mp h
      exact ⟨hdone.symm, hwrote.store⟩

theorem planAdd_isSome {entry : Entry} (h : planAdd s entry = .ok planned) :
    ∃ edit, planned = some edit := by
  unfold planAdd at h
  split at h
  · cases h
  · dsimp only at h
    split at h
    · cases h
    · split at h
      · cases h
      · cases h
        exact ⟨_, rfl⟩

theorem appends_of_planAdd {entry : Entry} (h : planAdd s entry = .ok planned) :
    ∃ id, (entry.id ≠ "" → id = entry.id) ∧
      s.data.Appends (settle s.data today planned) { entry with id } := by
  obtain ⟨edit, rfl⟩ := planAdd_isSome h
  obtain ⟨rfl, -, -⟩ := planAdd_eq_ok h
  by_cases hid : entry.id.isEmpty = true
  · refine ⟨s.data.freshId entry.category, fun hne => absurd ?_ hne, ?_⟩
    · simpa using hid
    · rw [Store.withId, if_pos hid]
      exact ⟨rfl, rfl⟩
  · refine ⟨entry.id, fun _ => rfl, ?_⟩
    rw [Store.withId, if_neg hid]
    exact ⟨rfl, rfl⟩

theorem alters_of_planUpdate {id : String} {changes : List Store.Change}
    (h : planUpdate s id changes = .ok planned) :
    s.data.Alters (settle s.data today planned) id changes := by
  unfold planUpdate at h
  split at h
  · cases h
  · rename_i e hentry
    split at h
    · cases h
    · rename_i hlocked
      cases h
      exact alters_modifyEntry hentry hlocked

theorem frame_remove (hids : (s.data.entries.map (·.id)).Nodup) (id : String)
    (h : (remove id).plan s t today = .ok planned) :
    (remove id).Frame s.data (settle s.data today planned) planned.isSome := by
  cases h
  cases hentry : s.data.entry? id with
  | none =>
    have hnone := entry?_eq_none_iff.mp hentry
    have hall : ∀ e ∈ s.data.entries, (e.id != id) = true := by simpa using hnone
    refine ⟨⟨nofun, fun hsome => ?_⟩, (List.filter_eq_self.mpr hall).symm, rfl⟩
    obtain ⟨e, he, hid⟩ := hsome
    exact absurd hid (hnone e he)
  | some e =>
    have hmem : e ∈ s.data.entries := List.mem_of_find?_eq_some hentry
    have hid : e.id = id := by simpa using List.find?_some hentry
    exact ⟨⟨fun _ => ⟨e, hmem, hid⟩, fun _ => rfl⟩, removeEntry_eq_filter hids id, rfl⟩

/-- The frame of an operation, from what it plans. -/
theorem frame_of_plan {op : Operation} (hids : (s.data.entries.map (·.id)).Nodup)
    (h : op.plan s t today = .ok planned) :
    op.Frame s.data (settle s.data today planned) planned.isSome := by
  cases op with
  | add entry => exact appends_of_planAdd h
  | update id changes => exact alters_of_planUpdate h
  | remove id => exact frame_remove hids id h
  | addFramework name signatures description stats verifiedBy =>
    cases h
    exact ⟨_, rfl, rfl, rfl, rfl, rfl, repatterns_setFramework name _ s.data⟩
  | setEnabled name enabled =>
    dsimp only [plan] at h
    split at h
    · cases h
    · rename_i p hp
      cases h
      exact ⟨p, hp, repatterns_setFramework name _ s.data⟩
  | removeFramework name =>
    cases h
    cases hp : s.data.framework? name with
    | none => exact ⟨by simp [hp], rfl, hp, rfl⟩
    | some p =>
      refine ⟨by simp [hp], rfl, framework?_eq_none_of_filter (l := s.data) rfl, ?_⟩
      show (s.data.frameworks.filter (·.1 != name)).filter (·.1 != name) = _
      rw [List.filter_filter]
      simp
  | approve root request =>
    dsimp only [plan] at h
    split at h
    · cases h
    · rename_i entry hentry
      obtain ⟨code, dependencies, -, -, rfl⟩ := Approval.entryFor_eq_ok hentry
      obtain ⟨id, -, happends⟩ := appends_of_planAdd h
      exact ⟨_, rfl, rfl, rfl, happends⟩
  | reapprove root id =>
    obtain ⟨code, dependencies, hupdate⟩ := planReapprove_eq_ok h
    exact ⟨code, dependencies, alters_of_planUpdate hupdate⟩

/-! ## Operations that change places -/

/-- The operations on entries that look at nothing but the ledger. -/
def OnEntries : Operation → Prop
  | add _ | update _ _ | remove _ => True
  | _ => False

def OnFrameworks : Operation → Prop
  | addFramework _ _ _ _ _ | setEnabled _ _ | removeFramework _ => True
  | _ => False

end Operation

namespace Edit

def OnEntries : Edit → Prop
  | append _ | replace _ _ | drop _ => True
  | _ => False

def OnFrameworks : Edit → Prop
  | setFramework _ _ | dropFramework _ => True
  | _ => False

end Edit

namespace Operation

variable {s s' : Store} {t t' : Tree} {day day' : String} {planned planned' : Option Edit}
  {a b : Operation}

/-- What an operation on entries plans depends on the entries only. -/
theorem plan_of_entries (ha : a.OnEntries) (h : s'.data.entries = s.data.entries) :
    a.plan s' t' day' = a.plan s t day := by
  obtain ⟨path, version, lastUpdated, frameworks, entries, categories⟩ := s
  obtain ⟨path', version', lastUpdated', frameworks', entries', categories'⟩ := s'
  obtain rfl : entries' = entries := h
  cases a with
  | add entry => rfl
  | update id changes => rfl
  | remove id => rfl
  | _ => exact ha.elim

/-- What an operation on patterns plans depends on the patterns only. -/
theorem plan_of_frameworks (hb : b.OnFrameworks) (h : s'.data.frameworks = s.data.frameworks) :
    b.plan s' t' day = b.plan s t day := by
  obtain ⟨path, version, lastUpdated, frameworks, entries, categories⟩ := s
  obtain ⟨path', version', lastUpdated', frameworks', entries', categories'⟩ := s'
  obtain rfl : frameworks' = frameworks := h
  cases b with
  | addFramework name signatures description stats verifiedBy => rfl
  | setEnabled name enabled => rfl
  | removeFramework name => rfl
  | _ => exact hb.elim

theorem onEntries_of_plan {edit : Edit} (ha : a.OnEntries) (h : a.plan s t day = .ok (some edit)) :
    edit.OnEntries := by
  cases a with
  | add entry =>
    obtain ⟨rfl, -, -⟩ := planAdd_eq_ok h
    trivial
  | update id changes =>
    obtain ⟨e, -, rfl⟩ := planUpdate_eq_ok h
    trivial
  | remove id =>
    obtain ⟨-, -, rfl⟩ := Option.map_eq_some_iff.mp (Except.ok.inj h)
    trivial
  | _ => exact ha.elim

theorem onFrameworks_of_plan {edit : Edit} (hb : b.OnFrameworks)
    (h : b.plan s t day = .ok (some edit)) : edit.OnFrameworks := by
  cases b with
  | addFramework name signatures description stats verifiedBy =>
    cases h
    trivial
  | setEnabled name enabled =>
    dsimp only [plan] at h
    split at h
    · cases h
    · cases h
      trivial
  | removeFramework name =>
    obtain ⟨-, -, rfl⟩ := Option.map_eq_some_iff.mp (Except.ok.inj h)
    trivial
  | _ => exact hb.elim

/-- Edits of different tables can change places; only the date of the ledger is that of the last
one. -/
theorem settle_comm (l : Ledger) (day day' : String) (hentries : ∀ edit ∈ planned, edit.OnEntries)
    (hframeworks : ∀ edit ∈ planned', edit.OnFrameworks) :
    settle (settle l day' planned') day planned =
      { settle (settle l day planned) day' planned' with
        lastUpdated := (settle (settle l day' planned') day planned).lastUpdated } := by
  cases planned with
  | none => rfl
  | some edit =>
    cases planned' with
    | none => rfl
    | some edit' =>
      have hedit := hentries edit rfl
      have hedit' := hframeworks edit' rfl
      cases edit' with
      | setFramework name p => cases edit <;> first | rfl | exact hedit.elim
      | dropFramework name => cases edit <;> first | rfl | exact hedit.elim
      | _ => exact hedit'.elim

theorem lastUpdated_settle (l : Ledger) (day : String) (planned planned' : Option Edit) :
    (settle (settle l day planned) day planned').lastUpdated =
      (settle (settle l day planned') day planned).lastUpdated := by
  cases planned with
  | none => rfl
  | some edit =>
    cases planned' with
    | none => rfl
    | some edit' => rfl

theorem entries_settle (l : Ledger) (hframeworks : ∀ edit ∈ planned, edit.OnFrameworks) :
    (settle l day planned).entries = l.entries := by
  cases planned with
  | none => rfl
  | some edit =>
    have hedit := hframeworks edit rfl
    cases edit <;> first | rfl | exact hedit.elim

theorem frameworks_settle (l : Ledger) (hentries : ∀ edit ∈ planned, edit.OnEntries) :
    (settle l day planned).frameworks = l.frameworks := by
  cases planned with
  | none => rfl
  | some edit =>
    have hedit := hentries edit rfl
    cases edit <;> first | rfl | exact hedit.elim

theorem version_apply (l : Ledger) (edit : Edit) : (edit.apply l).version = l.version := by
  cases edit <;> rfl

/-- An operation on entries and one on patterns come to the same ledger in either order. -/
theorem perform_comm {s₁ s₂ s₃ s₄ : Store} {t₁ t₂ t₃ t₄ u₁ u₂ u₃ u₄ : Tree} {x x' y y' : Bool}
    (ha : a.OnEntries) (hb : b.OnFrameworks)
    (hfirst : a.perform s t₁ day = ⟨u₁, s₁, .ok x⟩)
    (hsecond : b.perform s₁ t₂ day' = ⟨u₂, s₂, .ok y⟩)
    (hfirst' : b.perform s t₃ day' = ⟨u₃, s₃, .ok y'⟩)
    (hsecond' : a.perform s₃ t₄ day = ⟨u₄, s₄, .ok x'⟩) :
    x = x' ∧ y = y' ∧
      s₄ = { s₂ with data := { s₂.data with lastUpdated := s₄.data.lastUpdated } } ∧
      (day = day' → s₄ = s₂) := by
  obtain ⟨edits, hplan, rfl, rfl⟩ := perform_done hfirst
  obtain ⟨edits', hplan', rfl, rfl⟩ := perform_done hfirst'
  have hentries : ∀ edit ∈ edits, edit.OnEntries := by
    intro edit hedit
    rw [hedit] at hplan
    exact onEntries_of_plan ha hplan
  have hframeworks : ∀ edit ∈ edits', edit.OnFrameworks := by
    intro edit hedit
    rw [hedit] at hplan'
    exact onFrameworks_of_plan hb hplan'
  -- Neither operation sees what the other one did, so each plans what it plans on the first ledger.
  obtain ⟨again', hagain', rfl, rfl⟩ := perform_done hsecond
  obtain ⟨again, hagain, rfl, rfl⟩ := perform_done hsecond'
  rw [plan_of_frameworks hb (frameworks_settle s.data hentries), hplan'] at hagain'
  rw [plan_of_entries ha (entries_settle s.data hframeworks), hplan] at hagain
  cases hagain
  cases hagain'
  have hcomm := settle_comm s.data day day' hentries hframeworks
  refine ⟨rfl, rfl, congrArg (fun data => ({ s with data } : Store)) hcomm, ?_⟩
  intro hday
  subst hday
  rw [lastUpdated_settle] at hcomm
  exact congrArg (fun data => ({ s with data } : Store)) hcomm

/-- On a ledger whose ids are distinct, every operation that succeeds keeps to its target: besides
the counts and the date, it changes what its frame says and nothing else.  And an operation on
entries and one on patterns do the same and come to the same ledger in either order, but for the
date if they are done on different days. -/
theorem operations_keep_to_their_target (hids : (s.data.entries.map (·.id)).Nodup) :
    (∀ (op : Operation) (t t' : Tree) (today : String) (s' : Store) (done : Bool),
      op.perform s t today = ⟨t', s', .ok done⟩ →
        s'.path = s.path ∧ s'.data.version = s.data.version ∧
          s' = (if done then { s' with data := s'.data.stamped today } else s) ∧
          op.Frame s.data s'.data done) ∧
    ∀ {a b : Operation} {day day' : String} {t₁ t₂ t₃ t₄ u₁ u₂ u₃ u₄ : Tree}
      {s₁ s₂ s₃ s₄ : Store} {x x' y y' : Bool},
      a.OnEntries → b.OnFrameworks →
      a.perform s t₁ day = ⟨u₁, s₁, .ok x⟩ → b.perform s₁ t₂ day' = ⟨u₂, s₂, .ok y⟩ →
      b.perform s t₃ day' = ⟨u₃, s₃, .ok y'⟩ → a.perform s₃ t₄ day = ⟨u₄, s₄, .ok x'⟩ →
        x = x' ∧ y = y' ∧
          s₄ = { s₂ with data := { s₂.data with lastUpdated := s₄.data.lastUpdated } } ∧
          (day = day' → s₄ = s₂) := by
  refine ⟨?_, ?_⟩
  · intro op t t' today s' done h
    obtain ⟨planned, hplan, rfl, rfl⟩ := perform_done h
    have hframe : op.Frame s.data (settle s.data today planned) planned.isSome :=
      frame_of_plan hids hplan
    cases planned with
    | none => exact ⟨rfl, rfl, rfl, hframe⟩
    | some edit => exact ⟨rfl, version_apply s.data edit, rfl, hframe⟩
  · intro a b day day' t₁ t₂ t₃ t₄ u₁ u₂ u₃ u₄ s₁ s₂ s₃ s₄ x x' y y' ha hb
    exact perform_comm ha hb

/-- A ledger with three approvals and the pattern of a framework. -/
def framedLedger : Store :=
  { path := { anchor := .root, parts := ["p", "l.json"] },
    data :=
      { lastUpdated := "2025-01-01",
        frameworks := [("react", { id := "framework-react-001", verifiedDate := "2025-01-01" })],
        entries :=
          [{ id := "n-1", file := "a.js", line := 1, approvedCodeSnapshot := "x.y;",
             approvedDate := "2025-01-01" },
           { id := "n-2", file := "a.js", line := 1, approvedCodeSnapshot := "x.y;",
             approvedDate := "2025-01-01" },
           { id := "n-3", file := "b.js", line := 4, approvedCodeSnapshot := "u.v;",
             approvedDate := "2025-01-01" }] } }

def framedProject : Tree := ⟨[(["p"], .dir)]⟩

/-- The ledger after an operation. -/
def framedAfter (s : Store) (op : Operation) : Store :=
  (op.perform s framedProject "2025-03-04").store

/-- The removal of an approval and the switch of a pattern, in either order. -/
theorem operations_keep_to_their_target_sample :
    framedLedger.data.Drops (framedAfter framedLedger (remove "n-2")).data "n-2" ∧
      framedAfter (framedAfter framedLedger (setEnabled "react" false)) (remove "n-2") =
        framedAfter (framedAfter framedLedger (remove "n-2")) (setEnabled "react" false) := by
  have hids : (framedLedger.data.entries.map (·.id)).Nodup := by decide
  have hdone : ∀ (s : Store) (op : Operation),
      (op.perform s framedProject "2025-03-04").result = .ok true →
        op.perform s framedProject "2025-03-04" =
          ⟨(op.perform s framedProject "2025-03-04").tree, framedAfter s op, .ok true⟩ := by
    intro s op h
    rw [← h]
    rfl
  have hremove := hdone framedLedger (remove "n-2") (by decide +kernel)
  have hswitch := hdone framedLedger (setEnabled "react" false) (by decide +kernel)
  have hthenSwitch := hdone (framedAfter framedLedger (remove "n-2")) (setEnabled "react" false)
    (by decide +kernel)
  have hthenRemove := hdone (framedAfter framedLedger (setEnabled "react" false)) (remove "n-2")
    (by decide +kernel)
  obtain ⟨hframe, hcomm⟩ := operations_keep_to_their_target hids
  obtain ⟨-, -, -, -, hdrops⟩ := hframe _ _ _ _ _ _ hremove
  have hentries : (remove "n-2").OnEntries := trivial
  have hframeworks : (setEnabled "react" false).OnFrameworks := trivial
  obtain ⟨-, -, -, hsame⟩ := hcomm hentries hframeworks hremove hthenSwitch hswitch hthenRemove
  exact ⟨hdrops, hsame rfl⟩

end Operation

end NullAccess
