import NullAccess.Proofs.Ledger.Run

/-!
# Ids

Two entries of a ledger never share an id, unless the ledger was read so: an entry comes in only
under an id that is free, and no change touches an id (`EntryStep.nodup_ids`).

An id that the ledger makes up is free by itself.  It is the category with one more than the highest
number in use, and an entry that had this id already would have a number above the highest
(`Ledger.freshId_ne`).  There is no such id only where a number of the category has too many digits
to be read or written (`Ledger.isNumbered_eq_false_iff`).
-/

namespace NullAccess

/-! ## Reading numerals -/

namespace Text

theorem digitValue?_of_isDigit {c : Char} (h : c.isDigit = true) :
    digitValue? c = some (c.toNat - '0'.toNat) := by
  obtain ⟨hlow, hhigh⟩ := Char.isDigit_iff_toNat.mp h
  have hzero : '0'.toNat = 48 := rfl
  have hnine : '9'.toNat = 57 := rfl
  have hfirst : (decide (48 ≤ c.toNat) && decide (c.toNat < 48 + 10)) = true := by
    rw [Bool.and_eq_true, decide_eq_true_eq, decide_eq_true_eq]
    omega
  have hfind : zeros.find? (fun z => decide (z ≤ c.toNat) && decide (c.toNat < z + 10)) = some 48 :=
    List.find?_cons_of_pos hfirst
  rw [digitValue?, hfind]
  rfl

theorem readDigitsFrom_of_isDigit {ds : List Char} (h : ∀ c ∈ ds, c.isDigit = true) (held : Nat) :
    readDigitsFrom held ds = some (Nat.ofDigitChars 10 ds held) := by
  induction ds generalizing held with
  | nil => rfl
  | cons c rest ih =>
    obtain ⟨hc, hrest⟩ := List.forall_mem_cons.mp h
    rw [readDigitsFrom, digitValue?_of_isDigit hc, Option.bind_some, ih hrest]
    rfl

theorem readDigitsFrom_isSome {ds : List Char} (h : ∀ c ∈ ds, isDecimal c = true) (held : Nat) :
    (readDigitsFrom held ds).isSome = true := by
  induction ds generalizing held with
  | nil => rfl
  | cons c rest ih =>
    obtain ⟨hc, hrest⟩ := List.forall_mem_cons.mp h
    obtain ⟨d, hd⟩ := Option.isSome_iff_exists.mp hc
    rw [readDigitsFrom, hd, Option.bind_some]
    exact ih hrest _

/-- Decimal digits denote a number unless there are too many of them. -/
theorem readNumeral?_eq_none_iff {ds : List Char} (hne : ds ≠ [])
    (h : ∀ c ∈ ds, isDecimal c = true) :
    readNumeral? ds = none ↔ maxDigits < ds.length := by
  have hread : readDigits? ds ≠ none := by
    have hempty : ds.isEmpty = false := by simpa using hne
    have hsome := readDigitsFrom_isSome h 0
    rw [readDigits?, hempty]
    intro hnone
    simp only [Bool.false_eq_true, if_false] at hnone
    rw [hnone] at hsome
    cases hsome
  unfold readNumeral?
  split
  · exact ⟨fun _ => by assumption, fun _ => rfl⟩
  · exact ⟨fun hnone => absurd hnone hread, fun hlt => by contradiction⟩

end Text

namespace Ledger

variable {l : Ledger} {category id : String} {n : Nat} {e : Entry}

/-! ## Numbers in ids -/

theorem toList_padded (n : Nat) :
    (padded n).toList =
      List.replicate (3 - (Nat.toDigits 10 n).length) '0' ++ Nat.toDigits 10 n := by
  rw [padded, String.toList_ofList]

theorem isDigit_of_mem_padded (n : Nat) : ∀ c ∈ (padded n).toList, c.isDigit = true := by
  intro c hc
  rw [toList_padded, List.mem_append] at hc
  rcases hc with hzero | hdigit
  · rw [(List.mem_replicate.mp hzero).2]
    rfl
  · exact Nat.isDigit_of_mem_toDigits (by omega) (by omega) hdigit

theorem padded_ne_nil (n : Nat) : (padded n).toList ≠ [] := by
  rw [toList_padded]
  exact List.append_ne_nil_of_right_ne_nil _ Nat.toDigits_ne_nil

/-- The zeros in front of a number do not count. -/
theorem readDigits?_padded (n : Nat) : Text.readDigits? (padded n).toList = some n := by
  have hempty : (padded n).toList.isEmpty = false := by simpa using padded_ne_nil n
  rw [Text.readDigits?, hempty]
  simp only [Bool.false_eq_true, if_false]
  rw [Text.readDigitsFrom_of_isDigit (isDigit_of_mem_padded n), toList_padded,
    Nat.ofDigitChars_append, Nat.ofDigitChars_replicate_zero, Nat.mul_zero,
    Nat.ofDigitChars_toDigits (by omega) (by omega)]

theorem idDigits?_padded (category : String) (n : Nat) :
    idDigits? category s!"{category}-{padded n}" = some (padded n).toList := by
  have hlist : (s!"{category}-{padded n}").toList =
      (category.toList ++ ['-']) ++ (padded n).toList := by
    show (category ++ "-" ++ padded n).toList = _
    rw [String.toList_append, String.toList_append]
    rfl
  have hlast : (padded n).toList.getLast? ≠ some '\n' := by
    intro hlast
    have hdigit := isDigit_of_mem_padded n _ (List.mem_of_getLast? hlast)
    revert hdigit
    decide
  have hdecimal : (padded n).toList.all Text.isDecimal = true := by
    rw [List.all_eq_true]
    intro c hc
    rw [Text.isDecimal, Text.digitValue?_of_isDigit (isDigit_of_mem_padded n c hc)]
    rfl
  have hempty : (padded n).toList.isEmpty = false := by simpa using padded_ne_nil n
  have hprefix : (category.toList ++ ['-']).isPrefixOf
      ((category.toList ++ ['-']) ++ (padded n).toList) = true :=
    List.isPrefixOf_iff_prefix.mpr (List.prefix_append _ _)
  unfold idDigits?
  dsimp only
  rw [hlist, if_pos hprefix, List.drop_left, if_neg hlast, hempty, hdecimal]
  rfl

theorem le_foldl_max {ns : List Nat} (h : n ∈ ns) (start : Nat) : n ≤ ns.foldl max start := by
  obtain ⟨m, hm⟩ := Option.isSome_iff_exists.mp (List.isSome_max?_of_mem h)
  have hle : n ≤ m := (List.max?_eq_some_iff.mp hm).2 n h
  rw [List.foldl_max, hm, Option.getD_some]
  exact Nat.le_trans hle (Nat.le_max_right start m)

theorem le_highestNumber (he : e ∈ l.entries) (hn : idNumber? category e.id = some n) :
    n ≤ l.highestNumber category :=
  le_foldl_max (List.mem_filterMap.mpr ⟨e, he, hn⟩) 0

/-! ## Fresh ids -/

/-- The id that is made up for a category is the id of no entry. -/
theorem freshId_ne (h : l.isNumbered category = true) (he : e ∈ l.entries) :
    e.id ≠ l.freshId category := by
  intro heq
  rw [isNumbered, Bool.and_eq_true, List.all_eq_true] at h
  have hdigits : idDigits? category e.id =
      some (padded (l.highestNumber category + 1)).toList := by
    rw [heq]
    exact idDigits?_padded category _
  have hread := h.1 e he
  rw [hdigits, Option.all_some] at hread
  -- The numeral is short enough to be read, and it stands for a number above the highest.
  have hnumber : idNumber? category e.id = some (l.highestNumber category + 1) := by
    rw [idNumber?, hdigits, Option.bind_some]
    unfold Text.readNumeral? at hread ⊢
    split at hread
    · cases hread
    · rename_i hlength
      rw [if_neg hlength]
      exact readDigits?_padded _
  have hle := le_highestNumber he hnumber
  omega

theorem digits_of_idDigits? {ds : List Char} (h : idDigits? category id = some ds) :
    ds ≠ [] ∧ ∀ c ∈ ds, Text.isDecimal c = true := by
  unfold idDigits? at h
  dsimp only at h
  split at h
  · rw [Option.ite_none_left_eq_some, Option.some_inj] at h
    obtain ⟨hdigits, rfl⟩ := h
    rw [Bool.or_eq_true, not_or, Bool.not_eq_true', Bool.not_eq_false, List.all_eq_true,
      List.isEmpty_iff] at hdigits
    exact hdigits
  · cases h

/-- No id can be made up for a category exactly if a number in use, or the next one, has too many
digits. -/
theorem isNumbered_eq_false_iff :
    l.isNumbered category = false ↔
      (∃ e ∈ l.entries, ∃ ds, idDigits? category e.id = some ds ∧ Text.maxDigits < ds.length) ∨
        Nat.pow 10 Text.maxDigits ≤ l.highestNumber category + 1 := by
  rw [isNumbered, Bool.and_eq_false_iff, List.all_eq_false, Text.isWritable,
    decide_eq_false_iff_not, Nat.not_lt]
  refine or_congr (exists_congr fun e => and_congr_right fun _ => ?_) Iff.rfl
  cases hdigits : idDigits? category e.id with
  | none => simp
  | some ds =>
    obtain ⟨hne, hdecimal⟩ := digits_of_idDigits? hdigits
    rw [Option.all_some, Option.not_isSome_iff_eq_none, Text.readNumeral?_eq_none_iff hne hdecimal]
    simp

end Ledger

/-! ## Ids along a run -/

theorem Store.Change.id_apply (e : Entry) (c : Store.Change) : (c.apply e).id = e.id := by
  cases c <;> rfl

theorem Store.id_foldl_apply (cs : List Store.Change) (e : Entry) :
    (cs.foldl Store.Change.apply e).id = e.id := by
  induction cs generalizing e with
  | nil => rfl
  | cons c rest ih => rw [List.foldl_cons, ih, Store.Change.id_apply]

theorem Ledger.map_modifyEntry {α : Type} {g : Entry → α} {f : Entry → Entry}
    (hf : ∀ e, g (f e) = g e) (id : String) (es : List Entry) :
    (Ledger.modifyEntry id f es).map g = es.map g := by
  induction es with
  | nil => rfl
  | cons e rest ih =>
    rw [Ledger.modifyEntry]
    split
    · rw [List.map_cons, List.map_cons, hf]
    · rw [List.map_cons, List.map_cons, ih]

theorem EntryStep.nodup_ids {p : Permit} {es es' : List Entry} (h : EntryStep p es es')
    (hes : (es.map (·.id)).Nodup) : (es'.map (·.id)).Nodup := by
  cases h with
  | append permitted freeId freePlace =>
    rw [List.map_append, List.map_singleton, ← List.concat_eq_append]
    refine hes.concat fun hmem => ?_
    obtain ⟨a, ha, hid⟩ := List.mem_map.mp hmem
    exact freeId a ha hid
  | change id permitted =>
    rwa [Ledger.map_modifyEntry (Store.id_foldl_apply _)]
  | drop id => exact hes.sublist ((Ledger.removeEntry_sublist id es).map _)

theorem Store.nodup_ids_run {s : Store} (hs : (s.data.entries.map (·.id)).Nodup)
    (turns : List Turn) : ((s.run turns).data.entries.map (·.id)).Nodup :=
  EntrySteps.keep EntryStep.nodup_ids
    (Store.steps_run (fun turn _ => turn.permitted_everything) s) hs

/-! ## Additions without an id -/

namespace Store

variable {s : Store} {t : Tree} {today : String} {entry : Entry}

theorem endsSync_of_commit {α : Type} {data : Ledger} {result : α} {e : LedgerError}
    (h : (s.commit t today data result).result = .error e) : Approval.endsSync e = true := by
  rcases hcommit : s.commit t today data result with ⟨t', s', r⟩
  rw [hcommit] at h
  obtain rfl : r = .error e := h
  obtain ⟨x, hsave, -⟩ := commit_eq_error hcommit
  exact Approval.endsSync_of_save hsave

theorem entry?_freshId (h : s.data.isNumbered entry.category = true) :
    s.data.entry? (s.data.freshId entry.category) = none :=
  Ledger.entry?_eq_none_iff.mpr fun _ he => Ledger.freshId_ne h he

/-- How an addition without an id is refused: no id can be made up, the place is taken, or the
ledger cannot be written.  The id that is made up is never the reason. -/
theorem add_refused (hid : entry.id = "") {e : LedgerError}
    (h : (s.add t today entry).result = .error e) :
    s.data.isNumbered entry.category = false ∧ e = .stopped (.fault .longNumeral) ∨
    (∃ other, s.data.find? entry.file entry.line (some entry.category) = some other ∧
      e = .duplicateLocation entry.location other.id) ∨
    Approval.endsSync e = true := by
  have hempty : entry.id.isEmpty = true := by rw [hid]; rfl
  have hwith : s.withId entry = { entry with id := s.data.freshId entry.category } := by
    rw [withId, if_pos hempty]
  unfold add at h
  cases hnumbered : s.data.isNumbered entry.category with
  | false =>
    rw [hempty, hnumbered, Bool.not_false, Bool.and_true, if_pos rfl] at h
    exact .inl ⟨rfl, (Except.error.inj h).symm⟩
  | true =>
    refine .inr ?_
    have hfree : s.data.entry? (s.data.freshId entry.category) = none := entry?_freshId hnumbered
    simp only [hnumbered, hwith, hfree, Bool.not_true, Bool.and_false, Bool.false_eq_true, if_false,
      Option.isSome_none] at h
    cases hplace : s.data.find? entry.file entry.line (some entry.category) with
    | some other =>
      rw [hplace] at h
      exact .inl ⟨other, rfl, (Except.error.inj h).symm⟩
    | none =>
      rw [hplace] at h
      exact .inr (endsSync_of_commit h)

/-- The ids of entries stay distinct in every run.  In every ledger an id that is made up for a
category is free, and there is one unless a number of the category has too many digits.  So an entry
without an id is refused as a duplicate only if there is an entry for its file, line and
category. -/
theorem ids_stay_distinct {start : Store} (hstart : (start.data.entries.map (·.id)).Nodup)
    (turns : List Turn) :
    ((start.run turns).data.entries.map (·.id)).Nodup ∧
    (∀ (l : Ledger) (category : String),
      (l.isNumbered category = true ∧ ∀ e ∈ l.entries, e.id ≠ l.freshId category) ∨
      (l.isNumbered category = false ∧
        ((∃ e ∈ l.entries, ∃ ds, Ledger.idDigits? category e.id = some ds ∧
            Text.maxDigits < ds.length) ∨
          Nat.pow 10 Text.maxDigits ≤ l.highestNumber category + 1))) ∧
    ∀ (s : Store) (t : Tree) (today : String) (entry : Entry), entry.id = "" →
      (∀ id, (s.add t today entry).result ≠ .error (.duplicateId id)) ∧
      ∀ place existing, (s.add t today entry).result = .error (.duplicateLocation place existing) →
        ∃ e ∈ s.data.entries, e.isAt entry.file entry.line = true ∧ e.isOf entry.category = true ∧
          place = entry.location ∧ existing = e.id := by
  refine ⟨nodup_ids_run hstart turns, fun l category => ?_, fun s t today entry hid => ⟨?_, ?_⟩⟩
  · cases hnumbered : l.isNumbered category with
    | true => exact .inl ⟨rfl, fun e he => Ledger.freshId_ne hnumbered he⟩
    | false => exact .inr ⟨rfl, Ledger.isNumbered_eq_false_iff.mp hnumbered⟩
  · intro id h
    rcases add_refused hid h with ⟨-, heq⟩ | ⟨other, -, heq⟩ | hends
    · cases heq
    · cases heq
    · cases hends
  · intro place existing h
    rcases add_refused hid h with ⟨-, heq⟩ | ⟨other, hother, heq⟩ | hends
    · cases heq
    · cases heq
      have hcovers := List.find?_some hother
      rw [Option.all_some, Bool.and_eq_true] at hcovers
      exact ⟨other, List.mem_of_find?_eq_some hother, hcovers.1, hcovers.2, rfl, rfl⟩
    · cases hends

/-- A ledger with numbers in two scripts and of two lengths, one of a longer category. -/
def numberedLedger : Store :=
  { path := { anchor := .root, parts := ["p", "l.json"] },
    data :=
      { lastUpdated := "2025-03-04",
        entries :=
          [{ id := "a-٧", file := "a.js", line := 1, approvedCodeSnapshot := "x.y;",
             approvedDate := "2025-03-04" },
           { id := "a-0002", file := "a.js", line := 2, approvedCodeSnapshot := "x.z;",
             approvedDate := "2025-03-04" },
           { id := "a-1-009", file := "a.js", line := 3, approvedCodeSnapshot := "z.x;",
             approvedDate := "2025-03-04" }] } }

/-- An entry goes and another comes in without an id. -/
def renumberingTurns : List Turn :=
  [.act (.operate (.remove "a-0002")) ⟨[(["p"], .dir)]⟩ "2025-03-05",
   .act (.operate (.add { id := "", category := "a", file := "b.js", line := 1,
                          approvedCodeSnapshot := "x.y;", approvedDate := "2025-03-05" }))
     ⟨[(["p"], .dir)]⟩ "2025-03-05"]

theorem ids_stay_distinct_sample :
    (numberedLedger.data.entries.map (·.id)).Nodup ∧
    (numberedLedger.run renumberingTurns).data.entries.map (·.id) = ["a-٧", "a-1-009", "a-008"] ∧
    ((numberedLedger.run renumberingTurns).data.entries.map (·.id)).Nodup := by
  have hdistinct : (numberedLedger.data.entries.map (·.id)).Nodup := by decide
  exact ⟨hdistinct, by decide +kernel, (ids_stay_distinct hdistinct renumberingTurns).1⟩

end Store

end NullAccess
