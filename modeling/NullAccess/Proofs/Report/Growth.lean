import NullAccess.Proofs.Report.Merge

/-!
# Reports of growing ledgers

When valid entries with ids of their own are put at the end of a ledger, they take from the new
findings those they cover, and nothing else in the report changes (`assemble_grown`).  In particular
a report depends on a ledger only through its entries, and on the files only through the verdicts.
-/

namespace NullAccess

/-- Whether an entry is for a finding's file, line and category. -/
def Entry.covers (e : Entry) (f : Finding) : Bool := e.isAt f.file f.line && e.isOf f.category

/-- A ledger with further entries at its end, whose ids are new. -/
structure Ledger.Grows (l l' : Ledger) (extra : List Entry) : Prop where
  entries : l'.entries = l.entries ++ extra
  freshIds : ∀ e ∈ l.entries, e.id ∉ extra.map (·.id)

namespace Merge

variable {l l' : Ledger} {extra : List Entry} {rule rule' : Entry → ValidationResult}
  {fs : List Finding}

theorem covering?_grown (h : l.Grows l' extra) (f : Finding) :
    l'.covering? f = (l.covering? f).or (extra.find? (·.covers f)) := by
  rw [Ledger.covering?, Ledger.find?, h.entries, List.find?_append]
  rfl

theorem covering?_of_some (h : l.Grows l' extra) {f : Finding} {e : Entry}
    (he : l.covering? f = some e) : l'.covering? f = some e := by
  rw [covering?_grown h, he, Option.some_or]

theorem covering?_of_none (h : l.Grows l' extra) {f : Finding} (hf : l.covering? f = none) :
    l'.covering? f = extra.find? (·.covers f) := by
  rw [covering?_grown h, hf, Option.none_or]

theorem isNone_find?_covers (f : Finding) :
    (extra.find? (·.covers f)).isNone = !extra.any (·.covers f) := by
  rw [Bool.eq_iff_iff]
  simp

/-- Whether an entry is an added one, by its id. -/
def isExtra (extra : List Entry) (id : String) : Bool := (extra.map (·.id)).contains id

theorem isExtra_of_mem {e : Entry} (he : e ∈ extra) : isExtra extra e.id = true :=
  List.contains_iff_mem.mpr (List.mem_map_of_mem he)

theorem isExtra_eq_false (h : l.Grows l' extra) {e : Entry} (he : e ∈ l.entries) :
    isExtra extra e.id = false := by
  have hnot := h.freshIds e he
  rwa [← List.contains_iff_mem, Bool.not_eq_true] at hnot

/-! ## Buckets -/

theorem newOf_grown (h : l.Grows l' extra) :
    newOf l' fs = (newOf l fs).filter fun f => !extra.any (·.covers f) := by
  rw [newOf, newOf, List.filter_filter]
  refine List.filter_congr fun f _ => ?_
  rw [covering?_grown h, Option.isNone_or, Bool.and_comm, isNone_find?_covers]

/-- What is made of the covered findings, without the added entries, is what was made of them. -/
theorem filterMap_covering?_grown {α : Type} (h : l.Grows l' extra)
    {g g' : Finding → Entry → Option α} (hsame : ∀ f ∈ fs, ∀ e ∈ l.entries, g' f e = g f e)
    (hextra : ∀ f ∈ fs, ∀ e ∈ extra, g' f e = none) :
    (fs.filterMap fun f => (l'.covering? f).bind (g' f)) =
      fs.filterMap fun f => (l.covering? f).bind (g f) := by
  refine List.filterMap_congr fun f hf => ?_
  cases hcover : l.covering? f with
  | some e =>
    rw [covering?_of_some h hcover, Option.bind_some, Option.bind_some]
    exact hsame f hf e (Ledger.mem_entries_of_covering? hcover)
  | none =>
    rw [covering?_of_none h hcover]
    cases hfind : extra.find? (·.covers f) with
    | none => rfl
    | some e => exact hextra f hf e (List.mem_of_find?_eq_some hfind)

theorem driftOf_grown (h : l.Grows l' extra) (hrule : ∀ e ∈ l.entries, rule' e = rule e)
    (hvalid : ∀ e ∈ extra, (rule' e).isValid = true) : driftOf l' rule' fs = driftOf l rule fs := by
  refine filterMap_covering?_grown h ?_ ?_
  · intro f _ e he
    rw [hrule e he]
  · intro f _ e he
    rw [if_pos (hvalid e he)]

theorem staleOf_append {es rest : List Entry} (hsame : ∀ e ∈ es, rule' e = rule e)
    (hvalid : ∀ e ∈ rest, (rule' e).isValid = true) :
    staleOf rule' (es ++ rest) = staleOf rule es := by
  have hnone : rest.filter (fun e => !(rule' e).isValid) = [] := by
    refine List.filter_eq_nil_iff.mpr fun e he => ?_
    rw [hvalid e he]
    nofun
  have hfilter : es.filter (fun e => !(rule' e).isValid) = es.filter fun e => !(rule e).isValid :=
    List.filter_congr fun e he => by rw [hsame e he]
  rw [staleOf, staleOf, List.filter_append, hnone, List.append_nil, hfilter]
  refine List.map_congr_left fun e he => ?_
  rw [hsame e (List.mem_of_mem_filter he)]

theorem whitelistedOf_grown (h : l.Grows l' extra) (hrule : ∀ e ∈ l.entries, rule' e = rule e) :
    (whitelistedOf l' rule' fs).filter (!isExtra extra ·.entryId) = whitelistedOf l rule fs := by
  have hbind : ∀ (o : Option Entry) (g : Entry → Option WhitelistedFinding),
      (o.bind g).filter (!isExtra extra ·.entryId) =
        o.bind fun e => (g e).filter (!isExtra extra ·.entryId) := by
    intro o g
    cases o <;> rfl
  rw [whitelistedOf, List.filter_filterMap]
  simp only [hbind]
  refine filterMap_covering?_grown h ?_ ?_
  · intro f _ e he
    rw [hrule e he]
    by_cases hvalid : (rule e).isValid = true
    · simp [hvalid, Option.filter, isExtra_eq_false h he]
    · simp [hvalid]
  · intro f _ e he
    by_cases hvalid : (rule' e).isValid = true
    · simp [hvalid, Option.filter, isExtra_of_mem he]
    · simp [hvalid]

/-- The findings that the added entries take over. -/
theorem whitelistedOf_extra (h : l.Grows l' extra)
    (hvalid : ∀ e ∈ extra, (rule' e).isValid = true) :
    ((whitelistedOf l' rule' fs).filter (isExtra extra ·.entryId)).map (·.finding) =
      (newOf l fs).filter fun f => extra.any (·.covers f) := by
  rw [whitelistedOf, List.filter_filterMap, List.map_filterMap, newOf, List.filter_filter,
    ← List.filterMap_eq_filter]
  refine List.filterMap_congr fun f _ => ?_
  cases hcover : l.covering? f with
  | some e =>
    have hextra := isExtra_eq_false h (Ledger.mem_entries_of_covering? hcover)
    rw [covering?_of_some h hcover]
    by_cases hvalid : (rule' e).isValid = true <;>
      simp [hvalid, Option.filter, Option.guard, hextra, hcover]
  | none =>
    rw [covering?_of_none h hcover]
    cases hfind : extra.find? (·.covers f) with
    | none =>
      have hany : extra.any (·.covers f) = false := by simpa using hfind
      simp [Option.guard, hcover, hany]
    | some e =>
      have he := List.mem_of_find?_eq_some hfind
      have hcovers : e.covers f = true := by simpa using List.find?_some hfind
      have hany : extra.any (·.covers f) = true := List.any_eq_true.mpr ⟨e, he, hcovers⟩
      simp [hvalid e he, Option.filter, Option.guard, isExtra_of_mem he, hcover, hany]

theorem coverers_grown (h : l.Grows l' extra) :
    (coverers l' fs).filter (!isExtra extra ·.id) = coverers l fs := by
  have hbind : ∀ o : Option Entry, o.filter (!isExtra extra ·.id) =
      o.bind fun e => if isExtra extra e.id then none else some e := by
    intro o
    cases o with
    | none => rfl
    | some e => by_cases he : isExtra extra e.id = true <;> simp [Option.filter, he]
  have hcoverers : coverers l fs = fs.filterMap fun f => (l.covering? f).bind some :=
    List.filterMap_congr fun f _ => by cases l.covering? f <;> rfl
  rw [hcoverers, coverers, List.filter_filterMap]
  simp only [hbind]
  refine filterMap_covering?_grown h ?_ ?_
  · intro f _ e he
    rw [isExtra_eq_false h he]
    rfl
  · intro f _ e he
    rw [isExtra_of_mem he]
    rfl

end Merge

namespace ScanReport

open Merge

variable {results : List FileResult} {l l' : Ledger} {extra : List Entry} {t t' : Tree}
  {v : Validator} {d : DefaultSeverity} {target today today' time time' : String} {e : Entry}

/-! ## Verdicts -/

theorem mem_ids_grown (h : l.Grows l' extra) {fs : List Finding} (he : e ∈ l.entries) :
    e.id ∈ (coverers l' fs).map (·.id) ↔ e.id ∈ (coverers l fs).map (·.id) := by
  rw [← coverers_grown h, List.mem_map, List.mem_map]
  refine exists_congr fun a => and_congr_left fun hid => ?_
  rw [List.mem_filter, hid, isExtra_eq_false h he]
  simp

theorem unmatched_grown (h : l.Grows l' extra) :
    ∃ rest, (∀ e ∈ rest, e ∈ extra) ∧
      unmatched results l' d = unmatched results l d ++ rest := by
  rw [unmatched, h.entries, remaining_append]
  refine ⟨_, fun e he => List.mem_of_mem_filter he, congrArg (· ++ _) ?_⟩
  refine List.filter_congr fun e he => ?_
  congr 2
  rw [Bool.eq_iff_iff, List.contains_iff_mem, List.contains_iff_mem]
  exact mem_ids_grown h he

theorem asked_grown (h : l.Grows l' extra) :
    (asked results l' d).filter (!isExtra extra ·.id) = asked results l d := by
  obtain ⟨rest, hrest, hunmatched⟩ : ∃ rest, (∀ e ∈ rest, e ∈ extra) ∧
      unmatched results l' d = unmatched results l d ++ rest := unmatched_grown h
  have hkept : (unmatched results l d).filter (!isExtra extra ·.id) = unmatched results l d := by
    refine List.filter_eq_self.mpr fun e he => ?_
    rw [isExtra_eq_false h (List.mem_of_mem_filter he)]
    rfl
  have hgone : rest.filter (!isExtra extra ·.id) = [] := by
    refine List.filter_eq_nil_iff.mpr fun e he => ?_
    rw [isExtra_of_mem (hrest e he)]
    nofun
  rw [asked, asked, List.filter_append, coverers_grown h, hunmatched, List.filter_append, hkept,
    hgone, List.append_nil]

theorem spokesman_grown (h : l.Grows l' extra) (he : e ∈ l.entries) :
    spokesman (asked results l' d) e = spokesman (asked results l d) e := by
  rw [spokesman, spokesman, ← asked_grown h, List.find?_filter]
  congr 2
  funext a
  by_cases hid : a.id = e.id
  · simp [hid, isExtra_eq_false h he]
  · simp [hid]

theorem spokesman_extra (h : l.Grows l' extra) (he : e ∈ extra) :
    spokesman (asked results l' d) e ∈ extra := by
  rw [spokesman]
  cases hfind : (asked results l' d).find? (·.id == e.id) with
  | none => exact he
  | some a =>
    have hid : a.id = e.id := by simpa using List.find?_some hfind
    have ha := mem_entries_of_mem_asked (List.mem_of_find?_eq_some hfind)
    rw [h.entries, List.mem_append] at ha
    -- No entry from before has the id of an added one.
    refine ha.resolve_left fun hold => h.freshIds a hold ?_
    rw [hid]
    exact List.mem_map_of_mem he

theorem verdictOn_spokesman_grown (h : l.Grows l' extra)
    (hsame : ∀ e ∈ l.entries, v.verdictOn t' e = v.verdictOn t e) (he : e ∈ l.entries) :
    v.verdictOn t' (spokesman (asked results l' d) e) =
      v.verdictOn t (spokesman (asked results l d) e) := by
  rw [spokesman_grown h he]
  exact hsame _ (spokesman_mem (fun a => mem_entries_of_mem_asked) he)

theorem ruling_grown (h : l.Grows l' extra)
    (hsame : ∀ e ∈ l.entries, v.verdictOn t' e = v.verdictOn t e) (he : e ∈ l.entries) :
    ruling v t' (asked results l' d) e = ruling v t (asked results l d) e := by
  rw [ruling, ruling, verdictOn_spokesman_grown h hsame he]

theorem judged_extra (h : l.Grows l' extra) (hextra : ∀ e ∈ extra, v.Approves t' e)
    (he : e ∈ extra) : Judged v t' (asked results l' d) e := by
  obtain ⟨r, hr, -⟩ := hextra _ (spokesman_extra h he)
  exact ⟨r, hr⟩

theorem ruling_extra (h : l.Grows l' extra) (hextra : ∀ e ∈ extra, v.Approves t' e)
    (he : e ∈ extra) : (ruling v t' (asked results l' d) e).isValid = true :=
  (ruling_isValid_iff (judged_extra h hextra he)).mpr (hextra _ (spokesman_extra h he))

theorem reportable_grown (h : l.Grows l' extra)
    (hsame : ∀ e ∈ l.entries, v.verdictOn t' e = v.verdictOn t e)
    (hextra : ∀ e ∈ extra, v.Approves t' e) (hreportable : Reportable results l t v d) :
    Reportable results l' t' v d := by
  constructor
  · intro e he huncovered
    rw [h.entries, List.mem_append] at he
    rcases he with hold | hnew
    · exact hreportable.named e hold (mt (mem_ids_grown h hold).mpr huncovered)
    · obtain ⟨r, hr, -⟩ := hextra e hnew
      exact isNamed_of_verdictOn hr
  · intro e he
    have hmem := mem_entries_of_mem_asked he
    rw [h.entries, List.mem_append] at hmem
    rcases hmem with hold | hnew
    · have hasked : e ∈ asked results l d := by
        rw [← asked_grown h, List.mem_filter, isExtra_eq_false h hold]
        exact ⟨he, rfl⟩
      rw [Judged, verdictOn_spokesman_grown h hsame hold]
      exact hreportable.judged e hasked
    · exact judged_extra h hextra hnew

/-! ## Reports -/

/-- How a report changes when entries take over the new findings they cover: nothing else changes,
and a finding that is taken over loses at most its fix. -/
structure Yields (before : ScanReport) (extra : List Entry) (after : ScanReport) : Prop where
  new : after.new = before.new.filter fun f => !extra.any (·.covers f)
  taken : (after.whitelisted.filter (isExtra extra ·.entryId)).map (·.finding.withFix) =
    before.new.filter fun f => extra.any (·.covers f)
  others : after.whitelisted.filter (!isExtra extra ·.entryId) = before.whitelisted
  drift : after.drift = before.drift
  errors : after.errors = before.errors

theorem driftItems_grown (h : l.Grows l' extra)
    (hsame : ∀ e ∈ l.entries, v.verdictOn t' e = v.verdictOn t e)
    (hextra : ∀ e ∈ extra, v.Approves t' e) :
    driftItems results l' t' v d = driftItems results l t v d := by
  have hrule : ∀ e ∈ l.entries, ruling v t' (asked results l' d) e =
      ruling v t (asked results l d) e := fun e he => ruling_grown h hsame he
  have hvalid : ∀ e ∈ extra, (ruling v t' (asked results l' d) e).isValid = true :=
    fun e he => ruling_extra h hextra he
  obtain ⟨rest, hrest, hunmatched⟩ : ∃ rest, (∀ e ∈ rest, e ∈ extra) ∧
      unmatched results l' d = unmatched results l d ++ rest := unmatched_grown h
  have hold : ∀ e ∈ unmatched results l d, ruling v t' (asked results l' d) e =
      ruling v t (asked results l d) e := fun e he => hrule e (List.mem_of_mem_filter he)
  rw [driftItems, driftItems, driftOf_grown h hrule hvalid, hunmatched,
    staleOf_append hold fun e he => hvalid e (hrest e he)]

/-- The report of a ledger with further valid entries. -/
theorem assemble_grown {before : ScanReport} (h : l.Grows l' extra)
    (hsame : ∀ e ∈ l.entries, v.verdictOn t' e = v.verdictOn t e)
    (hextra : ∀ e ∈ extra, v.Approves t' e)
    (hbefore : assemble results l t v d target today time = .ok before) :
    ∃ after, assemble results l' t' v d target today' time' = .ok after ∧
      before.Yields extra after := by
  obtain ⟨hreportable, rfl⟩ := assemble_eq_ok_iff.mp hbefore
  refine ⟨_, assemble_eq_ok_iff.mpr ⟨reportable_grown h hsame hextra hreportable, rfl⟩, ?_⟩
  constructor
  case new =>
    show (newOf l' _).map _ = ((newOf l _).map _).filter _
    rw [newOf_grown h, List.filter_map]
    rfl
  case taken =>
    show ((whitelistedOf l' _ _).filter _).map (Finding.withFix ∘ (·.finding)) =
      ((newOf l _).map _).filter _
    rw [List.filter_map, ← List.map_map, whitelistedOf_extra h fun e he => ruling_extra h hextra he]
    rfl
  case others => exact whitelistedOf_grown h fun e he => ruling_grown h hsame he
  case drift =>
    show (driftItems results l' t' v d).map _ = (driftItems results l t v d).map _
    rw [driftItems_grown h hsame hextra]
  case errors => rfl

end ScanReport

end NullAccess
